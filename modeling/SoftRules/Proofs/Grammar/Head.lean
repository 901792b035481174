import SoftRules.Proofs.Grammar.Body
import SoftRules.Proofs.Grammar.Difference

/-!
How the heads of rules are read back from their texts.

An aggregate is tried before a literal, so literals have to be told from aggregates. This is where
the word `not` may be taken for a bound. In front of the head a weight is tried, so numbers at the
start of a head have to be told from weights.
-/

set_option autoImplicit false

namespace SoftRules

def Head.write (head : Head) (rest : List Char) : List Char := head.render.toList ++ rest

theorem Head.write_literal (content : Literal) (rest : List Char) :
    (Head.literal content).write rest = content.write rest := rfl

theorem Head.write_aggregate (content : Aggregate Literal) (rest : List Char) :
    (Head.aggregate content).write rest = (Atom.aggregate content).write rest := by
  simp [Head.write, Head.render, Atom.write, Atom.render]

theorem Head.write_theory (content : TheoryAtom) (rest : List Char) :
    (Head.theory content).write rest = content.write rest := rfl

namespace Grammar

open SoftRules.Parser

/-! Literals that are not read as aggregates. -/

section Aggregates

variable {literal : Parser Literal} {text rest : List Char} {content : Term} {spaced : Bool}

/-- An atom that is no aggregate is not read as one. -/
theorem rejects_aggregate_atom {content : Atom Literal} (lexical : content.isLexical = true)
    (other : ∀ aggregate, content ≠ .aggregate aggregate) (closes : Closes text) :
    (aggregate literal).Rejects (content.write (gap spaced ++ text)) := by
  cases content with
  | predicate content origin =>
      simp only [Atom.isLexical, Bool.and_eq_true] at lexical
      rw [Atom.write_predicate]
      have readable := isReadable_of_isLexical content lexical.2
      obtain ⟨_, _, leading, noBrace, _⟩ := leadingGuard_delimiter
        (readable.reads_term (closes.endsTerm spaced 0)) closes
      exact rejects_aggregate leading noBrace
  | boolean value origin =>
      rw [Atom.write_boolean]
      exact rejects_aggregate (reads_leadingGuard_none (by simp [isTermStart])) (by simp)
  | comparison left symbol right origin =>
      simp only [Atom.isLexical, Bool.and_eq_true] at lexical
      rw [Atom.write_comparison]
      have readable := isReadable_of_isLexical left lexical.1
      obtain ⟨_, _, leading, noBrace, _⟩ := leadingGuard_comparison symbol
        (readable.reads_term (endsTerm_relation symbol _)) (startsTerm_write right lexical.2 _)
      exact rejects_aggregate leading noBrace
  | aggregate content => exact absurd rfl (other content)
  | bodyAggregate content =>
      obtain ⟨function, left, elements, right, origin⟩ := content
      simp only [Atom.isLexical, BodyAggregate.isLexical, Bool.and_eq_true] at lexical
      rw [Atom.write_bodyAggregate]
      exact rejects_aggregate_function function lexical.1.1 _

/-- If the word `not` is read as a bound of its own, then braces have to follow. -/
theorem rejects_aggregate_word (solid : Solid text)
    (noOperator : ∀ first ∈ text.head?, isOperatorStart first = false)
    (noInterval : ¬ ['.', '.'] <+: text)
    (noRelation : ∀ first ∈ text.head?, isRelationStart first = false)
    (noBrace : '\x7b' ∉ text.head?) : (aggregate literal).Rejects ("not ".toList ++ text) :=
  rejects_aggregate (reads_leadingGuard_bare true (reads_word solid noOperator noInterval) solid
    noRelation) noBrace

theorem rejects_aggregate_term (starts : StartsTerm text) (noMinus : '-' ∉ text.head?) :
    (aggregate literal).Rejects ("not ".toList ++ text) := by
  refine rejects_aggregate_word starts.solid ?_ ?_ ?_ (starts.head_ne (by decide))
  · intro first isFirst
    cases isOperator : isOperatorStart first with
    | false => rfl
    | true =>
        simp only [isOperatorStart, Bool.or_eq_true, beq_iff_eq] at isOperator
        rcases isOperator with (((rfl | rfl) | rfl) | rfl) | rfl
        · exact absurd isFirst (starts.head_ne (by decide))
        · exact absurd isFirst noMinus
        · exact absurd isFirst (starts.head_ne (by decide))
        · exact absurd isFirst (starts.head_ne (by decide))
        · exact absurd isFirst (starts.head_ne (by decide))
  · rintro ⟨others, rfl⟩
    exact starts.head_ne (by decide) rfl
  · intro first isFirst
    cases isRelation : isRelationStart first with
    | false => rfl
    | true =>
        simp only [isRelationStart, Bool.or_eq_true, beq_iff_eq] at isRelation
        rcases isRelation with ((rfl | rfl) | rfl) | rfl <;>
          exact absurd isFirst (starts.head_ne (by decide))

/-- A term that does not start with a difference does not go on with the word `not`. -/
theorem rejects_aggregate_no_difference (lexical : content.isLexical = true)
    (starts : content.startsDifference = false) (ends : EndsName rest) :
    (aggregate literal).Rejects ("not ".toList ++ content.write rest) := by
  rcases rejects_behind_minus content lexical starts rest ends with noMinus | ⟨input, shape, h⟩
  · exact rejects_aggregate_term (startsTerm_write content lexical rest) noMinus
  · rw [shape]
    have leading : leadingGuard.Reads ("not ".toList ++ '-' :: input) ("not ".toList ++ '-' :: input)
        (· = none) := .optional_none (.bind (.bind (rejects_word_difference h.1 h.2)))
    exact rejects_aggregate leading (by simp)

/-- A term behind the word `not` is no bound either if no braces follow. -/
theorem rejects_aggregate_behind (lexical : content.isLexical = true) (ends : EndsTerm 0 rest)
    (behind : ∀ input, (term.Reads input rest fun _ => True) →
      ∃ middle isGuard, leadingGuard.Reads input middle isGuard ∧ '\x7b' ∉ middle.head?) :
    (aggregate literal).Rejects ("not ".toList ++ content.write rest) := by
  cases starts : content.startsDifference with
  | false => exact rejects_aggregate_no_difference lexical starts ends.name
  | true =>
      obtain ⟨_, _, leading, noBrace⟩ := behind _ (reads_word_difference lexical starts ends)
      exact rejects_aggregate leading noBrace

theorem rejects_aggregate_negated {content : Atom Literal} (lexical : content.isLexical = true)
    (unabsorbed : content.absorbsNegation = false) (closes : Closes text) :
    (aggregate literal).Rejects ("not ".toList ++ content.write (gap spaced ++ text)) := by
  have hash (rest : List Char) : (aggregate literal).Rejects ("not ".toList ++ '#' :: rest) :=
    rejects_aggregate_word (solid_cons (by decide) (by decide)) (by simp [isOperatorStart])
      (by simp) (by simp [isRelationStart]) (by simp)
  cases content with
  | predicate content origin =>
      simp only [Atom.isLexical, Bool.and_eq_true] at lexical
      rw [Atom.write_predicate]
      refine rejects_aggregate_behind lexical.2 (closes.endsTerm spaced 0) fun input reads => ?_
      obtain ⟨_, _, leading, noBrace, _⟩ := leadingGuard_delimiter reads closes
      exact ⟨_, _, leading, noBrace⟩
  | boolean value origin =>
      rw [Atom.write_boolean]
      exact hash _
  | comparison left symbol right origin =>
      simp only [Atom.isLexical, Bool.and_eq_true] at lexical
      rw [Atom.write_comparison]
      refine rejects_aggregate_behind lexical.1 (endsTerm_relation symbol _) fun input reads => ?_
      obtain ⟨_, _, leading, noBrace, _⟩ := leadingGuard_comparison symbol reads
        (startsTerm_write right lexical.2 _)
      exact ⟨_, _, leading, noBrace⟩
  | aggregate content =>
      obtain ⟨left, elements, right, origin⟩ := content
      simp only [Atom.isLexical, Aggregate.isLexical, Bool.and_eq_true] at lexical
      rw [Atom.write_aggregate]
      cases left with
      | none => cases unabsorbed
      | some guard =>
          simp only [Atom.absorbsNegation, Option.all_some] at unabsorbed
          simp only [Guard.writeLeft_some]
          refine rejects_aggregate_no_difference lexical.1.1 unabsorbed ?_
          intro next isNext
          cases isNext
          decide
  | bodyAggregate content =>
      obtain ⟨function, left, elements, right, origin⟩ := content
      simp only [Atom.isLexical, BodyAggregate.isLexical, Bool.and_eq_true] at lexical
      obtain ⟨others, shape⟩ := function_cons function
      rw [Atom.write_bodyAggregate]
      cases left with
      | none =>
          change (aggregate literal).Rejects ("not ".toList ++ (function.symbol.toList ++ _))
          rw [shape]
          exact hash _
      | some guard =>
          simp only [Guard.writeLeft_some]
          refine rejects_aggregate_behind lexical.1.1 (endsTerm_spaced_relation guard.relation _)
            fun input reads => ?_
          refine ⟨_, _, reads_leadingGuard_relation guard.relation true true reads
            (solid_function function _) (by simp [gap]), ?_⟩
          rw [shape]
          simp

theorem rejects_aggregate_literal {content : Literal} (lexical : content.isLexical = true)
    (other : content.sign = .plain → ∀ aggregate, content.atom ≠ .aggregate aggregate)
    (unabsorbed : content.sign = .negated → content.atom.absorbsNegation = false)
    (closes : Closes text) :
    (aggregate literal).Rejects (content.write (gap spaced ++ text)) := by
  obtain ⟨sign, atom, origin⟩ := content
  rw [Literal.write_eq]
  cases sign with
  | plain => exact rejects_aggregate_atom lexical (other rfl) closes
  | negated => exact rejects_aggregate_negated lexical (unabsorbed rfl) closes
  | doublyNegated =>
      have shape (rest : List Char) : Sign.doublyNegated.render.toList ++ rest =
          "not ".toList ++ ("not ".toList ++ rest) := by simp [Sign.render]
      change (aggregate literal).Rejects (Sign.doublyNegated.render.toList ++ _)
      rw [shape]
      exact rejects_aggregate_word (solid_cons (by decide) (by decide)) (by simp [isOperatorStart])
        (by simp) (by simp [isRelationStart]) (by simp)

end Aggregates

/-! Heads. -/

section Heads

variable {text : List Char} {spaced : Bool}

/-- A head is written as an atom, behind a negation, or as a theory atom. -/
theorem Head.write_shape {content : Head} (lexical : content.isLexical = true) (rest : List Char) :
    (∃ atom : Atom Literal, atom.isLexical = true ∧ content.write rest = atom.write rest) ∨
      (∃ others, content.write rest = 'n' :: others) ∨
        ∃ others, content.write rest = '&' :: others := by
  cases content with
  | literal content =>
      obtain ⟨lexical, _⟩ := Head.isLexical_literal lexical
      rw [Head.write_literal, Literal.write_eq]
      by_cases plain : content.sign = .plain
      · rw [plain]
        exact .inl ⟨content.atom, content.isLexical_eq ▸ lexical, rfl⟩
      · exact .inr (.inl (sign_cons plain (content.atom.write rest)))
  | aggregate content =>
      refine .inl ⟨.aggregate content, ?_, Head.write_aggregate content rest⟩
      rw [Atom.isLexical]
      exact lexical
  | theory content =>
      rw [Head.write_theory, TheoryAtom.write_eq]
      exact .inr (.inr ⟨_, rfl⟩)

/-- Without a sign, a head that is left out in front of a body is known. -/
theorem Head.erase_of_isFalse {content : Head} (isFalse : content.isFalse = true)
    (faithful : content.isFaithful true = true) :
    content.erase = Head.erase (.literal (.boolean false)) := by
  cases content with
  | literal content =>
      obtain ⟨sign, atom, origin⟩ := content
      cases atom with
      | boolean value origin =>
          cases value with
          | true => cases isFalse
          | false =>
              cases sign with
              | plain => rfl
              | negated => cases faithful
              | doublyNegated => cases faithful
      | _ => cases isFalse
  | aggregate content => cases isFalse
  | theory content => cases isFalse

theorem reads_head {content : Head} (lexical : content.isLexical = true)
    (faithful : content.isFaithful spaced = true) (closes : Closes text) :
    head.Reads (content.write (gap spaced ++ text)) (gap spaced ++ text) fun found =>
      found.erase = content.erase := by
  cases content with
  | literal content =>
      simp only [Head.isFaithful, Bool.and_eq_true, Bool.not_eq_true', Bool.and_eq_false_iff,
        beq_eq_false_iff_ne] at faithful
      obtain ⟨lexical, other⟩ := Head.isLexical_literal lexical
      have unabsorbed (negated : content.sign = .negated) :=
        faithful.1.2.resolve_left (· negated)
      have noTheory := rejects_theoryAtom
        ((startsLiteral_literal lexical (gap spaced ++ text)).head_ne (by decide))
      refine .expecting _ (.firstOf (.tail (.bind noTheory)
        (.tail (.bind (rejects_aggregate_literal lexical other unabsorbed closes)) (.head ?_))))
      refine .bind (isRead_of_isFaithful content spaced lexical faithful.2 text closes) ?_
      intro found same
      refine .pure ?_
      rw [Head.erase, same]
      rfl
  | aggregate content =>
      have noTheory : theoryAtom.Rejects ((Head.aggregate content).write (gap spaced ++ text)) := by
        have lexicalAtom : (Atom.aggregate content).isLexical = true := by
          rw [Atom.isLexical]
          exact lexical
        rw [Head.write_aggregate]
        exact rejects_theoryAtom ((startsLiteral_atom lexicalAtom _).head_ne (by decide))
      have areRead : ConditionalsAreRead content.elements := by
        obtain ⟨left, elements, right, origin⟩ := content
        simp only [Head.isLexical, Aggregate.isLexical, Bool.and_eq_true] at lexical
        simp only [Head.isFaithful, Aggregate.isFaithful, Bool.and_eq_true] at faithful
        exact conditionalsAreRead elements lexical.1.2 faithful.1.2
      have reads := @reads_faithful_aggregate text spaced content lexical faithful areRead closes
      rw [← Head.write_aggregate] at reads
      refine .expecting _ (.firstOf (.tail (.bind noTheory) (.head ?_)))
      refine .bind reads fun found same => .pure ?_
      rw [Head.erase, same]
      rfl
  | theory content =>
      have reads := reads_faithful_theoryAtom lexical faithful closes spaced
      refine .expecting _ (.firstOf (.head (.bind reads fun found same => .pure ?_)))
      rw [Head.erase, same]
      rfl

end Heads

end Grammar

end SoftRules
