import SoftRules.Proofs.Grammar.Term
import SoftRules.Proofs.Language.Faithful

/-!
A minus behind a term.

A term that starts with a minus is read as the right operand of a difference if another term stands
in front of it, or at least its first operands are: what binds tighter than the difference is read
with the minus, and the operators behind it go on from the difference.
-/

set_option autoImplicit false

namespace SoftRules.Grammar

open SoftRules.Parser

/-- A round that fails makes the rounds fail. -/
theorem rejects_rounds {α : Type} {round : Parser (Option α)} {input : List Char}
    (rejects : round.Rejects input) : (rounds round).Rejects input := by
  intro offset
  obtain ⟨error, rejected⟩ := rejects offset
  refine ⟨error, ?_⟩
  rw [read_rounds]
  simp only [rejected]

section Minus

/-- What stands behind the minus starts with operands that bind tighter than a difference. -/
theorem climbs_behind_minus : (term : Term) → term.isLexical = true →
    term.startsDifference = true → Operator.difference.rightStrength ≤ term.strength →
    (rest : List Char) → EndsTerm term.tailStrength rest →
    ∃ input, term.write rest = '-' :: input ∧ StartsTerm input ∧
      Climbs term.strength input rest fun _ _ => True
  | .symbol (.number value) origin, lexical, starts, _, rest, ends => by
      simp only [Term.startsDifference, Bool.and_eq_true, decide_eq_true_eq] at starts
      have fits : Number.fitsInt64 (-value) = true := by
        have limits : Number.minInt64 = -9223372036854775808 ∧
            Number.maxInt64 = 9223372036854775807 := ⟨rfl, rfl⟩
        simp only [Number.fitsInt64, Bool.and_eq_true, decide_eq_true_eq]
        omega
      refine ⟨(toString (-value)).toList ++ rest, ?_, (startsTerm_number _).append rest,
        climbs_operand (reads_number fits ends.name) fun _ _ => trivial⟩
      rw [Term.write_symbol, Symbol.render, toList_toString, toList_toString, if_pos starts.2,
        if_neg (by omega), Int.natAbs_neg]
      rfl
  | .operation operator [operand] origin, lexical, _, _, rest, ends => by
      simp only [Term.isLexical, Bool.and_eq_true] at lexical
      obtain rfl := Operator.isUnary_iff.mp lexical.1
      have readable := isReadable_of_isLexical operand lexical.2
      refine ⟨_, Term.write_negation operand origin rest, startsTerm_operand _ readable.1, ?_⟩
      cases enclosed : operand.bindsWeakerThanUnary with
      | true =>
          rw [Term.writeOperand_true]
          exact climbs_operand (reads_enclosed readable) fun _ _ => trivial
      | false =>
          have binds := Term.strength_of_unary enclosed
          have less := Nat.le_trans binds operand.strength_le_tailStrength
          exact ((readable.2 rest (ends.mono less)).mono binds).imp fun _ _ _ => trivial
  | .operation operator [left, right] origin, lexical, starts, tight, rest, ends => by
      simp only [Term.isLexical, Bool.and_eq_true, Bool.not_eq_true'] at lexical
      simp only [Term.startsDifference, Bool.and_eq_true, Bool.not_eq_true'] at starts
      obtain ⟨⟨isBinary, lexicalLeft⟩, lexicalRight⟩ := lexical
      rw [Term.tailStrength_binary isBinary] at ends
      have readsRight := (isReadable_of_isLexical right lexicalRight).readsRight isBinary ends
      obtain ⟨binds, tighter⟩ := Term.strength_of_left isBinary starts.1
      obtain ⟨input, shape, startsInput, climbs⟩ := climbs_behind_minus left lexicalLeft starts.2
        (Nat.le_trans tight binds) _ (endsTerm_operator isBinary tighter readsRight.starts)
      refine ⟨input, ?_, startsInput, (climbs.mono binds).binary readsRight.symbol
        readsRight.starts.solid readsRight.shorter readsRight.operand fun _ _ _ _ _ _ => trivial⟩
      rw [Term.write_binary, starts.1]
      exact shape
  | .var _, _, starts, _, _, _ => by cases starts
  | .symbol (.text _) _, _, starts, _, _, _ => by cases starts
  | .function _ _ _, _, starts, _, _, _ => by cases starts
  | .operation _ [] _, lexical, _, _, _, _ => by cases lexical
  | .operation _ (_ :: _ :: _ :: _) _, lexical, _, _, _, _ => by cases lexical

/-- The minus with its operand, and then rounds up to the end of the term. -/
def Subtracts (text rest : List Char) : Prop :=
  ∃ input middle, text = '-' :: input ∧ StartsTerm input ∧
    ((operation Operator.difference.rightStrength).Reads input middle fun _ => True) ∧
    Passes (continuation operation 0) middle rest fun _ => True

theorem subtracts_of_tight {term : Term} {rest : List Char} (lexical : term.isLexical = true)
    (starts : term.startsDifference = true)
    (tight : Operator.difference.rightStrength ≤ term.strength)
    (ends : EndsTerm term.tailStrength rest)
    (endsTight : Ends (continuation operation Operator.difference.rightStrength) rest) :
    Subtracts (term.write rest) rest := by
  obtain ⟨input, shape, startsInput, climbs⟩ :=
    climbs_behind_minus term lexical starts tight rest ends
  exact ⟨input, rest, shape, startsInput, ((climbs.mono tight).reads endsTight).imp
    fun _ _ => trivial, .refl trivial⟩

theorem tight_operand : Operator.difference.rightStrength ≤ operandStrength := by decide

theorem subtracts_of_startsDifference : (term : Term) → term.isLexical = true →
    term.startsDifference = true → (rest : List Char) → EndsTerm term.tailStrength rest →
    Ends (continuation operation Operator.difference.rightStrength) rest →
    Subtracts (term.write rest) rest
  | .symbol value origin, lexical, starts, rest, ends, endsTight =>
      subtracts_of_tight lexical starts tight_operand ends endsTight
  | .operation operator [operand] origin, lexical, starts, rest, ends, endsTight => by
      have isUnary : operator.isUnary = true := by
        simp only [Term.isLexical, Bool.and_eq_true] at lexical
        exact lexical.1
      obtain rfl := Operator.isUnary_iff.mp isUnary
      exact subtracts_of_tight lexical starts tight_operand ends endsTight
  | .operation operator [left, right] origin, lexical, starts, rest, ends, endsTight => by
      by_cases tight : Operator.difference.rightStrength ≤ operator.strength
      · exact subtracts_of_tight lexical starts tight ends endsTight
      · -- The difference comes first, and the operator goes on from there.
        simp only [Term.isLexical, Bool.and_eq_true, Bool.not_eq_true'] at lexical
        simp only [Term.startsDifference, Bool.and_eq_true, Bool.not_eq_true'] at starts
        obtain ⟨⟨isBinary, lexicalLeft⟩, lexicalRight⟩ := lexical
        rw [Term.tailStrength_binary isBinary] at ends
        have readsRight := (isReadable_of_isLexical right lexicalRight).readsRight isBinary ends
        obtain ⟨_, tighter⟩ := Term.strength_of_left isBinary starts.1
        obtain ⟨input, middle, shape, startsInput, reads, passes⟩ :=
          subtracts_of_startsDifference left lexicalLeft starts.2 _
            (endsTerm_operator isBinary tighter readsRight.starts)
            (endsTerm_operator isBinary (Nat.not_le.mp tight) readsRight.starts).operator
        have round := Passes.one (reads_continuation readsRight.symbol readsRight.starts.solid
          (Nat.zero_le _) readsRight.operand) readsRight.shorter
        refine ⟨input, middle, ?_, startsInput, reads,
          (passes.trans round).imp fun _ _ => trivial⟩
        rw [Term.write_binary, starts.1]
        exact shape
  | .var _, _, starts, _, _, _ => by cases starts
  | .function _ _ _, _, starts, _, _, _ => by cases starts
  | .operation _ [] _, lexical, _, _, _, _ => by cases lexical
  | .operation _ (_ :: _ :: _ :: _) _, lexical, _, _, _, _ => by cases lexical

/-- The number behind the minus of the least integer is not a number of the language. -/
theorem rejects_least {rest : List Char} (ends : EndsName rest) (strength : Nat) :
    (operation strength).Rejects (Nat.toDigits 10 Number.minInt64.natAbs ++ rest) := by
  obtain ⟨digit, others, shape, isDigit⟩ := toDigits_cons Number.minInt64.natAbs
  have head (first : Char)
      (isFirst : first ∈ (Nat.toDigits 10 Number.minInt64.natAbs ++ rest).head?) :
      first.isDigit = true := by
    rw [shape] at isFirst
    cases isFirst
    exact isDigit
  have noDigit {character : Char} (other : character.isDigit = false) :
      character ∉ (Nat.toDigits 10 Number.minInt64.natAbs ++ rest).head? := by
    intro isFirst
    rw [head character isFirst] at other
    cases other
  have noPrimary := rejects_primary term (fun first isFirst => (isDigit_classes (head first isFirst)).2)
    (fun first isFirst => (isDigit_classes (head first isFirst)).1) (noDigit (by decide))
    (noDigit (by decide))
  rw [operation_eq]
  refine .after .offset fun _ _ => .bind (rejects_firstOf ?_)
  exact .cons (.located (.bind (rejects_integer_large (by decide) ends)))
    (.cons (.located (.bind (rejects_char (noDigit (by decide))))) (.cons noPrimary .nil))

theorem head_primary {term : Term} (lexical : term.isLexical = true)
    (noOperation : term.operator? = none)
    (noNumber : ∀ value origin, term ≠ .symbol (.number value) origin) (rest : List Char) :
    '-' ∉ (term.write rest).head? := by
  obtain ⟨first, others, shape, _, noMinus⟩ := write_primary_cons lexical noOperation noNumber rest
  rw [shape]
  intro isMinus
  cases isMinus
  exact noMinus rfl

/-- Behind a term that starts with a minus but not with a difference nothing can be read. -/
theorem rejects_behind_minus : (term : Term) → term.isLexical = true →
    term.startsDifference = false → (rest : List Char) → EndsName rest →
    '-' ∉ (term.write rest).head? ∨ ∃ input, term.write rest = '-' :: input ∧ StartsTerm input ∧
      (operation Operator.difference.rightStrength).Rejects input
  | .symbol (.number value) origin, lexical, starts, rest, ends => by
      simp only [Term.startsDifference, Bool.and_eq_false_iff, decide_eq_false_iff_not] at starts
      simp only [Term.isLexical, Number.fitsInt64, Bool.and_eq_true, decide_eq_true_eq] at lexical
      rw [Term.write_symbol, Symbol.render, toList_toString]
      by_cases negative : value < 0
      · have least : value = Number.minInt64 := by omega
        rw [if_pos negative, least]
        obtain ⟨first, others, shape, isDigit⟩ := toDigits_cons Number.minInt64.natAbs
        refine .inr ⟨_, rfl, ?_, rejects_least ends _⟩
        rw [shape]
        exact ⟨first, _, rfl, by simp [isTermStart, Char.isAlphanum, isDigit]⟩
      · obtain ⟨first, others, shape, isDigit⟩ := toDigits_cons value.natAbs
        rw [if_neg negative, shape]
        left
        intro isMinus
        cases isMinus
        cases isDigit
  | .operation operator [operand] origin, lexical, starts, _, _ => by
      simp only [Term.isLexical, Bool.and_eq_true] at lexical
      obtain rfl := Operator.isUnary_iff.mp lexical.1
      cases starts
  | .operation operator [left, right] origin, lexical, starts, rest, ends => by
      simp only [Term.isLexical, Bool.and_eq_true, Bool.not_eq_true'] at lexical
      simp only [Term.startsDifference, Bool.and_eq_false_iff, Bool.not_eq_false'] at starts
      obtain ⟨⟨isBinary, lexicalLeft⟩, lexicalRight⟩ := lexical
      rw [Term.write_binary]
      cases enclosed : left.bindsWeakerThan operator false with
      | true =>
          rw [Term.writeOperand_true]
          exact .inl (by simp)
      | false =>
          obtain ⟨_, tighter⟩ := Term.strength_of_left isBinary enclosed
          have startsRight := @startsTerm_operand (right.bindsWeakerThan operator true) right rest
            (startsTerm_write right lexicalRight)
          exact rejects_behind_minus left lexicalLeft
            (starts.resolve_left (by simp [enclosed])) _
            (endsTerm_operator isBinary tighter startsRight).name
  | .var x, lexical, _, rest, _ =>
      .inl (head_primary lexical rfl (by simp) rest)
  | .symbol (.text value) origin, lexical, _, rest, _ =>
      .inl (head_primary lexical rfl (by simp) rest)
  | .function name arguments origin, lexical, _, rest, _ =>
      .inl (head_primary lexical rfl (by simp) rest)
  | .operation _ [] _, lexical, _, _, _ => by cases lexical
  | .operation _ (_ :: _ :: _ :: _) _, lexical, _, _, _ => by cases lexical

end Minus

/-! A term behind the word `not`, which is read as a constant if it is not read as a sign. -/

section Word

variable {text rest : List Char} {content : Term}

theorem reads_word_operand (text : List Char) :
    (operand operation).Reads ("not ".toList ++ text) (' ' :: text) fun found =>
      found.erase = .function "not" [] := by
  have noArguments : AllRead [] := by simp [AllRead]
  have ends : EndsName (' ' :: text) := by
    intro next isNext
    cases isNext
    decide
  have reads := @reads_function (' ' :: text) "not" (by decide) [] noArguments none ends (by simp)
  rwa [Term.write_constant (by decide)] at reads

theorem reads_word (solid : Solid text)
    (noOperator : ∀ first ∈ text.head?, isOperatorStart first = false)
    (noInterval : ¬ ['.', '.'] <+: text) :
    term.Reads ("not ".toList ++ text) (' ' :: text) fun found =>
      found.erase = .function "not" [] := by
  have ends := endsTerm_blank solid noOperator noInterval 0
  have opens : Opens 0 (.function "not" []) ("not ".toList ++ text) (' ' :: text) :=
    opens_operand (reads_word_operand text)
  exact .expecting _ (opens.reads ends.operator)

theorem reads_minus (text : List Char) :
    infixOperator.Reads (' ' :: '-' :: text) text (· = .difference) :=
  @reads_infixOperator .difference text rfl (by simp [Operator.Behind]) [' '] (by simp [isSpace])

theorem reads_word_difference (lexical : content.isLexical = true)
    (starts : content.startsDifference = true) (ends : EndsTerm 0 rest) :
    term.Reads ("not ".toList ++ content.write rest) rest fun _ => True := by
  obtain ⟨input, middle, shape, startsInput, reads, passes⟩ :=
    subtracts_of_startsDifference content lexical starts rest (ends.mono (Nat.zero_le _))
      (ends.mono (Nat.zero_le _)).operator
  rw [shape]
  have within : middle.length < (' ' :: '-' :: input).length := by
    obtain ⟨_, _, accepted, _⟩ := reads 0
    have shorter : middle.length ≤ input.length := length_le_of_read accepted
    simp only [List.length_cons]
    omega
  have round := Passes.one (reads_continuation (reads_minus input) startsInput.solid
    (Nat.zero_le _) reads) within
  refine .expecting _ ?_
  rw [operation_eq]
  exact .bind .offset fun _ _ => .bind (reads_word_operand _) fun _ _ =>
    .bind ((round.trans passes).reads ends.operator) fun _ _ => .pure trivial

theorem rejects_word_difference {input : List Char} (startsInput : StartsTerm input)
    (rejects : (operation Operator.difference.rightStrength).Rejects input) :
    term.Rejects ("not ".toList ++ '-' :: input) := by
  have round : (continuation operation 0).Rejects (' ' :: '-' :: input) := by
    refine .after (.optional_some (reads_minus input)) ?_
    rintro _ ⟨_, rfl, rfl⟩
    exact .after startsInput.solid.reads_no_space fun _ _ => .bind rejects
  refine .expecting _ ?_
  rw [operation_eq]
  exact .after .offset fun _ _ => .after (reads_word_operand _) fun _ _ =>
    .bind (rejects_rounds round)

end Word

end SoftRules.Grammar
