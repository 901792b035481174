import SoftRules.Proofs.Grammar.Head

/-!
Heads are not read as weights.

A weight is tried in front of each head. A head may well start with a number, but then an operator or
a relation follows it and not the colon of a weight.
-/

set_option autoImplicit false

namespace SoftRules.Grammar

open SoftRules.Parser

section Numbers

variable {text rest : List Char}

theorem rejects_weight (rejects : weightNumber.Rejects text) : weight.Rejects text :=
  .expecting _ (.bind (.located (.bind rejects)))

theorem rejects_weight_start (noMinus : '-' ∉ text.head?)
    (noDigit : ∀ first ∈ text.head?, first.isDigit = false) : weight.Rejects text :=
  rejects_weight (.after .offset fun _ _ => .after .rest fun _ _ =>
    .bind (.after (.optional_none (rejects_char noMinus)) fun _ _ => .bind (rejects_digits noDigit)))

theorem rejects_weight_minus (noDigit : ∀ first ∈ text.head?, first.isDigit = false) :
    weight.Rejects ('-' :: text) :=
  rejects_weight (.after .offset fun _ _ => .after .rest fun _ _ =>
    .bind (.after (.optional_some (.char '-' text)) fun _ _ => .bind (rejects_digits noDigit)))

/-- What stands behind a number that is not a weight. -/
structure EndsWeight (rest : List Char) : Prop where
  name : EndsName rest
  point : ∀ text, rest = '.' :: text → ∀ next ∈ text.head?, next.isDigit = false
  colon : ∃ blanks text, rest = blanks ++ text ∧ (∀ blank ∈ blanks, isSpace blank = true) ∧
    Solid text ∧ ':' ∉ text.head?

theorem endsWeight_operator {operator : Operator} (isBinary : operator.isUnary = false)
    (starts : StartsTerm text) : EndsWeight (operator.symbol.toList ++ text) := by
  have weaker : operator.strength < operandStrength := by
    cases operator <;> revert isBinary <;> decide
  refine ⟨(endsTerm_operator isBinary weaker starts).name, ?_, [], _, rfl, by simp, ?_, ?_⟩
  · intro others shape next isNext
    cases operator with
    | interval =>
        cases shape
        cases isNext
        decide
    | _ => cases shape
  · cases operator <;> exact solid_cons (by decide) (by decide)
  · cases operator <;> intro isFirst <;> cases isFirst

theorem endsWeight_relation (spaced : Bool) (symbol : Relation) (text : List Char) :
    EndsWeight (gap spaced ++ (symbol.symbol.toList ++ text)) := by
  refine ⟨?_, ?_, gap spaced, _, rfl, gap_areBlank spaced, solid_relation symbol text, ?_⟩
  · cases spaced with
    | false => exact (endsTerm_relation symbol text).name
    | true => exact (endsTerm_spaced_relation symbol text).name
  · intro others shape
    cases spaced <;> cases symbol <;> cases shape
  · cases symbol <;> intro isFirst <;> cases isFirst

theorem reads_weightSign {sign : List Char} (isSign : sign = [] ∨ sign = ['-']) (value : Nat)
    (rest : List Char) :
    (optional (char '-')).Reads (sign ++ (Nat.toDigits 10 value ++ rest))
      (Nat.toDigits 10 value ++ rest) fun _ => True := by
  obtain ⟨digit, others, shape, isDigit⟩ := toDigits_cons value
  rcases isSign with rfl | rfl
  · refine (Reads.optional_none (rejects_char ?_)).imp fun _ _ => trivial
    rw [shape]
    intro isMinus
    cases isMinus
    cases isDigit
  · exact (Reads.optional_some (.char '-' _)).imp fun _ _ => trivial

theorem EndsWeight.rejects_fraction (ends : EndsWeight rest) :
    (do char '.'; digits : Parser (List Char)).Rejects rest := by
  by_cases isPoint : '.' ∈ rest.head?
  · obtain ⟨others, rfl⟩ := List.head?_eq_some_iff.mp isPoint
    exact .after (.char '.' others) fun _ _ => rejects_digits (ends.point others rfl)
  · exact .bind (rejects_char isPoint)

theorem EndsWeight.rejects_exponent (ends : EndsWeight rest) :
    (do
      let _ ← oneOf ['e', 'E']
      let _ ← optional (oneOf ['+', '-'])
      digits : Parser (List Char)).Rejects rest := by
  refine .bind (rejects_satisfy _ fun first isFirst => ?_)
  have noName := ends.name first isFirst
  cases isExponent : ['e', 'E'].contains first with
  | false => rfl
  | true =>
      simp only [List.contains_cons, List.contains_nil, Bool.or_false, Bool.or_eq_true,
        beq_iff_eq] at isExponent
      rcases isExponent with rfl | rfl <;> cases noName

/-- The digits of a number, after a minus or without one. -/
theorem reads_weightNumber_digits {sign : List Char} (isSign : sign = [] ∨ sign = ['-'])
    (value : Nat) (ends : EndsWeight rest) :
    weightNumber.Reads (sign ++ (Nat.toDigits 10 value ++ rest)) rest
      (· = sign ++ Nat.toDigits 10 value) := by
  have parts : (do
      let _ ← optional (char '-')
      let _ ← digits
      let _ ← optional do char '.'; digits
      let _ ← optional do
        let _ ← oneOf ['e', 'E']
        let _ ← optional (oneOf ['+', '-'])
        digits : Parser Unit).Reads (sign ++ Nat.toDigits 10 value ++ rest) rest fun _ => True := by
    rw [List.append_assoc]
    exact .bind (reads_weightSign isSign value rest) fun _ _ =>
      .bind (reads_digits value ends.name) fun _ _ =>
        .bind (.optional_none ends.rejects_fraction) fun _ _ =>
          .bind (.optional_none ends.rejects_exponent) fun _ _ => .pure trivial
  rw [← List.append_assoc]
  exact .consumed parts

/-- A number is no weight if no colon follows. -/
theorem rejects_weight_number {sign : List Char} (isSign : sign = [] ∨ sign = ['-']) (value : Nat)
    (ends : EndsWeight rest) : weight.Rejects (sign ++ (Nat.toDigits 10 value ++ rest)) := by
  have annotation : (located do
      return { name := "weight", arguments := [weightTerm (← weightNumber)] : TheoryAtom }).Reads
      (sign ++ (Nat.toDigits 10 value ++ rest)) rest fun _ => True :=
    .located (.bind (reads_weightNumber_digits isSign value ends) fun _ _ => .pure fun _ => trivial)
  obtain ⟨blanks, text, rfl, areBlank, solid, noColon⟩ := ends.colon
  exact .expecting _ (.after annotation fun _ _ => .after (solid.reads_space blanks areBlank)
    fun _ _ => .bind (rejects_char noColon))

theorem rejects_weight_first {first : Char} (noMinus : first ≠ '-') (noDigit : first.isDigit = false)
    (others : List Char) : weight.Rejects (first :: others) := by
  refine rejects_weight_start ?_ ?_
  · intro isMinus
    cases isMinus
    exact noMinus rfl
  · intro character isFirst
    cases isFirst
    exact noDigit

theorem rejects_weight_primary {term : Term} (lexical : term.isLexical = true)
    (noOperation : term.operator? = none)
    (noNumber : ∀ value origin, term ≠ .symbol (.number value) origin) (rest : List Char) :
    weight.Rejects (term.write rest) := by
  obtain ⟨first, others, shape, noDigit, noMinus⟩ :=
    write_primary_cons lexical noOperation noNumber rest
  rw [shape]
  exact rejects_weight_first noMinus noDigit others

end Numbers

theorem rejects_weight_term : (term : Term) → term.isLexical = true → (rest : List Char) →
    EndsWeight rest → weight.Rejects (term.write rest)
  | .symbol (.number value) origin, _, rest, ends => by
      rw [Term.write_symbol, Symbol.render, toList_toString]
      split
      · exact rejects_weight_number (.inr rfl) value.natAbs ends
      · exact rejects_weight_number (.inl rfl) value.natAbs ends
  | .operation operator [operand] origin, lexical, rest, ends => by
      simp only [Term.isLexical, Bool.and_eq_true] at lexical
      rw [Operator.isUnary_iff.mp lexical.1, Term.write_negation]
      cases signed : Term.signedNumber? .negation [operand] with
      | some number =>
          obtain ⟨value, origin, rfl, natural, rfl⟩ := Term.eq_of_signedNumber? signed
          change weight.Rejects ('-' :: (Term.symbol (.number value) origin).write rest)
          rw [Term.write_symbol, Symbol.render, toList_toString, if_neg (by omega)]
          exact rejects_weight_number (.inr rfl) value.natAbs ends
      | none =>
          obtain ⟨first, others, shape, noDigit⟩ := writeOperand_cons lexical.2 signed rest
          rw [shape]
          refine rejects_weight_minus fun character isFirst => ?_
          cases isFirst
          exact noDigit
  | .operation operator [left, right] origin, lexical, rest, _ => by
      simp only [Term.isLexical, Bool.and_eq_true, Bool.not_eq_true'] at lexical
      rw [Term.write_binary]
      cases enclosed : left.bindsWeakerThan operator false with
      | true =>
          rw [Term.writeOperand_true]
          exact rejects_weight_first (by decide) (by decide) _
      | false =>
          exact rejects_weight_term left lexical.1.2 _ (endsWeight_operator lexical.1.1
            (startsTerm_operand _ (startsTerm_write right lexical.2)))
  | .var x, lexical, rest, _ => rejects_weight_primary lexical rfl (by simp) rest
  | .symbol (.text value) origin, lexical, rest, _ =>
      rejects_weight_primary lexical rfl (by simp) rest
  | .function name arguments origin, lexical, rest, _ =>
      rejects_weight_primary lexical rfl (by simp) rest
  | .operation _ [] _, lexical, _, _ => by cases lexical
  | .operation _ (_ :: _ :: _ :: _) _, lexical, _, _ => by cases lexical

section Heads

variable {text : List Char} {spaced : Bool}

theorem rejects_weight_guard {guard : Guard} (lexical : guard.term.isLexical = true)
    (rest : List Char) : weight.Rejects (Guard.writeLeft (some guard) rest) := by
  rw [Guard.writeLeft_some]
  exact rejects_weight_term guard.term lexical _ (endsWeight_relation true guard.relation _)

theorem rejects_weight_atom {content : Atom Literal} (lexical : content.isLexical = true) :
    weight.Rejects (content.write (gap spaced ++ text)) := by
  cases content with
  | predicate content origin =>
      simp only [Atom.isLexical, Bool.and_eq_true] at lexical
      rw [Atom.write_predicate]
      obtain ⟨name, arguments, origin, valid, _, shape⟩ := isAtom_cases lexical.1 lexical.2
      obtain ⟨first, others, start, isLower⟩ :=
        write_function_cons valid arguments origin (gap spaced ++ text)
      have noDigit := (isLower_classes isLower).1
      rcases shape with rfl | ⟨outer, rfl⟩
      · rw [start]
        refine rejects_weight_first ?_ noDigit others
        rintro rfl
        cases isLower
      · have bare : (Term.function name arguments origin).bindsWeakerThanUnary = false := rfl
        rw [Term.write_negation, bare, Term.writeOperand_false, start]
        refine rejects_weight_minus fun character isFirst => ?_
        cases isFirst
        exact noDigit
  | boolean value origin =>
      rw [Atom.write_boolean]
      exact rejects_weight_first (by decide) (by decide) _
  | comparison left symbol right origin =>
      simp only [Atom.isLexical, Bool.and_eq_true] at lexical
      rw [Atom.write_comparison]
      exact rejects_weight_term left lexical.1 _ (endsWeight_relation false symbol _)
  | aggregate content =>
      obtain ⟨left, elements, right, origin⟩ := content
      simp only [Atom.isLexical, Aggregate.isLexical, Bool.and_eq_true] at lexical
      rw [Atom.write_aggregate]
      cases left with
      | none => exact rejects_weight_first (by decide) (by decide) _
      | some guard => exact rejects_weight_guard lexical.1.1 _
  | bodyAggregate content =>
      obtain ⟨function, left, elements, right, origin⟩ := content
      simp only [Atom.isLexical, BodyAggregate.isLexical, Bool.and_eq_true] at lexical
      rw [Atom.write_bodyAggregate]
      cases left with
      | none =>
          obtain ⟨others, shape⟩ := function_cons function
          change weight.Rejects (function.symbol.toList ++ _)
          rw [shape]
          exact rejects_weight_first (by decide) (by decide) _
      | some guard => exact rejects_weight_guard lexical.1.1 _

theorem rejects_weight_head {content : Head} (lexical : content.isLexical = true) :
    weight.Rejects (content.write (gap spaced ++ text)) := by
  rcases Head.write_shape lexical (gap spaced ++ text) with
    ⟨atom, lexical, shape⟩ | ⟨others, shape⟩ | ⟨others, shape⟩
  · rw [shape]
    exact rejects_weight_atom lexical
  · rw [shape]
    exact rejects_weight_first (by decide) (by decide) others
  · rw [shape]
    exact rejects_weight_first (by decide) (by decide) others

end Heads

end SoftRules.Grammar
