import SoftRules.Proofs.Grammar.Lexeme
import SoftRules.Proofs.Grammar.Recursion

/-!
Where terms start and end, and how operators between them are read.
-/

set_option autoImplicit false

namespace SoftRules.Grammar

open SoftRules.Parser

/-- The characters with which the text of a term may start. -/
def isTermStart (character : Char) : Bool :=
  character.isAlphanum || character == '_' || character == '"' || character == '(' ||
    character == '-'

/-- The text of a term or of something that starts with a term. -/
def StartsTerm (text : List Char) : Prop :=
  ∃ first others, text = first :: others ∧ isTermStart first = true

theorem StartsTerm.append {text : List Char} (starts : StartsTerm text) (rest : List Char) :
    StartsTerm (text ++ rest) := by
  obtain ⟨first, others, rfl, isStart⟩ := starts
  exact ⟨first, others ++ rest, rfl, isStart⟩

theorem StartsTerm.head_ne {text : List Char} (starts : StartsTerm text) {character : Char}
    (other : isTermStart character = false) : character ∉ text.head? := by
  obtain ⟨first, others, rfl, isStart⟩ := starts
  intro isFirst
  cases isFirst
  rw [isStart] at other
  cases other

theorem StartsTerm.solid {text : List Char} (starts : StartsTerm text) : Solid text := by
  intro first isFirst
  have noStart {character : Char} (other : isTermStart character = false) : first ≠ character := by
    rintro rfl
    exact starts.head_ne other isFirst
  refine ⟨?_, noStart (by decide)⟩
  simp only [isSpace, Bool.or_eq_false_iff, beq_eq_false_iff_ne]
  exact ⟨⟨⟨noStart (by decide), noStart (by decide)⟩, noStart (by decide)⟩, noStart (by decide)⟩

/-- What can follow the word of an operator. -/
def Operator.Behind (operator : Operator) (rest : List Char) : Prop :=
  operator = .product → '*' ∉ rest.head?

variable {operator : Operator} {rest : List Char}

/-- Blanks may stand in front of an operator. -/
theorem reads_infixOperator (isBinary : operator.isUnary = false)
    (behind : Operator.Behind operator rest) (blanks : List Char)
    (areBlank : ∀ blank ∈ blanks, isSpace blank = true) :
    infixOperator.Reads (blanks ++ (operator.symbol.toList ++ rest)) rest (· = operator) := by
  have solid : Solid (operator.symbol.toList ++ rest) := by
    cases operator <;> exact solid_cons (by decide) (by decide)
  have reads (operator : Operator) : (do
      word operator.symbol.toList
      return operator : Parser Operator).Reads (operator.symbol.toList ++ rest) rest
      (· = operator) := .bind (.word _ _) fun _ _ => .pure rfl
  have rejects (other : Operator) (different : ¬ other.symbol.toList <+:
      operator.symbol.toList ++ rest) : (do
        word other.symbol.toList
        return other : Parser Operator).Rejects (operator.symbol.toList ++ rest) :=
    .bind (rejects_word different)
  refine .bind (solid.reads_space blanks areBlank) fun _ _ => .firstOf ?_
  -- An operator whose spelling starts that of another one stands behind it.
  cases operator with
  | interval => exact .head (reads _)
  | power => exact .tail (rejects .interval (by simp [Operator.symbol])) (.head (reads _))
  | sum =>
      exact .tail (rejects .interval (by simp [Operator.symbol]))
        (.tail (rejects .power (by simp [Operator.symbol])) (.head (reads _)))
  | difference =>
      exact .tail (rejects .interval (by simp [Operator.symbol]))
        (.tail (rejects .power (by simp [Operator.symbol]))
          (.tail (rejects .sum (by simp [Operator.symbol])) (.head (reads _))))
  | product =>
      have noPower : ¬ Operator.power.symbol.toList <+: Operator.product.symbol.toList ++ rest := by
        rintro ⟨others, shape⟩
        have second : rest = '*' :: others := by simpa [Operator.symbol] using shape.symm
        exact behind rfl (by simp [second])
      exact .tail (rejects .interval (by simp [Operator.symbol]))
        (.tail (rejects .power noPower)
          (.tail (rejects .sum (by simp [Operator.symbol]))
            (.tail (rejects .difference (by simp [Operator.symbol])) (.head (reads _)))))
  | quotient =>
      exact .tail (rejects .interval (by simp [Operator.symbol]))
        (.tail (rejects .power (by simp [Operator.symbol]))
          (.tail (rejects .sum (by simp [Operator.symbol]))
            (.tail (rejects .difference (by simp [Operator.symbol]))
              (.tail (rejects .product (by simp [Operator.symbol])) (.head (reads _))))))
  | remainder =>
      exact .tail (rejects .interval (by simp [Operator.symbol]))
        (.tail (rejects .power (by simp [Operator.symbol]))
          (.tail (rejects .sum (by simp [Operator.symbol]))
            (.tail (rejects .difference (by simp [Operator.symbol]))
              (.tail (rejects .product (by simp [Operator.symbol]))
                (.tail (rejects .quotient (by simp [Operator.symbol])) (.head (reads _)))))))
  | negation => cases isBinary

/-- Whether an operator may start with the character. The period starts one only if another one
follows. -/
def isOperatorStart (character : Char) : Bool :=
  character == '+' || character == '-' || character == '*' || character == '/' ||
    character == '\\'

theorem rejects_operators {text : List Char}
    (refused : ∀ first ∈ text.head?, isOperatorStart first = false)
    (noInterval : ¬ ['.', '.'] <+: text) :
    (firstOf <| Operator.binary.map fun operator => do
      word operator.symbol.toList
      return operator).Rejects text := by
  have rejects (operator : Operator) (first : Char) (others : List Char)
      (shape : operator.symbol.toList = first :: others) (isStart : isOperatorStart first = true) :
      (do
        word operator.symbol.toList
        return operator : Parser Operator).Rejects text := by
    refine .bind (rejects_word ?_)
    rintro ⟨behind, rfl⟩
    rw [shape] at refused
    rw [refused first rfl] at isStart
    cases isStart
  refine rejects_firstOf ?_
  exact .cons (.bind (rejects_word noInterval))
    (.cons (rejects .power '*' ['*'] (by decide) (by decide))
      (.cons (rejects .sum '+' [] (by decide) (by decide))
        (.cons (rejects .difference '-' [] (by decide) (by decide))
          (.cons (rejects .product '*' [] (by decide) (by decide))
            (.cons (rejects .quotient '/' [] (by decide) (by decide))
              (.cons (rejects .remainder '\\' [] (by decide) (by decide)) .nil))))))

theorem rejects_infixOperator {text : List Char} (solid : Solid text) (blanks : List Char)
    (areBlank : ∀ blank ∈ blanks, isSpace blank = true)
    (refused : ∀ first ∈ text.head?, isOperatorStart first = false)
    (noInterval : ¬ ['.', '.'] <+: text) :
    infixOperator.Rejects (blanks ++ text) :=
  .after (solid.reads_space blanks areBlank) fun _ _ => rejects_operators refused noInterval

/-! Where a term ends. -/

section Continuation

variable {strength : Nat} {input : List Char} {good : Term → Prop}

theorem ends_continuation (rejects : infixOperator.Rejects rest) :
    Ends (continuation operation strength) rest := by
  intro offset
  obtain ⟨found, stop, accepted, rfl⟩ := Reads.optional_none rejects offset
  refine ⟨⟨stop, rest⟩, ?_⟩
  rw [continuation, read_bind, accepted]
  rfl

theorem ends_continuation_weaker (reads : infixOperator.Reads rest input (· = operator))
    (weaker : operator.strength < strength) : Ends (continuation operation strength) rest := by
  intro offset
  obtain ⟨found, stop, accepted, _, rfl, rfl⟩ := Reads.optional_some reads offset
  refine ⟨⟨stop, input⟩, ?_⟩
  rw [continuation, read_bind, accepted]
  simp only [weaker, if_true]
  rfl

theorem reads_continuation (reads : infixOperator.Reads rest input (· = operator))
    (solid : Solid input) (binds : strength ≤ operator.strength) {left : List Char}
    (operand : (operation operator.rightStrength).Reads input left good) :
    (continuation operation strength).Reads rest left fun found =>
      ∃ item, found = some item ∧ item.1 = operator ∧ good item.2.1 := by
  refine .bind (.optional_some reads) ?_
  rintro _ ⟨_, rfl, rfl⟩
  simp only [Nat.not_lt.mpr binds, if_false]
  refine .bind solid.reads_no_space fun _ _ => .bind operand fun right isGood => ?_
  exact .bind .offset fun stop _ => .pure ⟨_, rfl, rfl, isGood⟩

/-- A text that ends an operation ends all stronger ones. -/
theorem ends_continuation_mono (ends : Ends (continuation operation strength) rest) {other : Nat}
    (less : strength ≤ other) : Ends (continuation operation other) rest := by
  intro offset
  obtain ⟨next, accepted⟩ := ends offset
  rw [continuation, read_bind] at accepted ⊢
  cases read : (optional infixOperator).read ⟨offset, rest⟩ with
  | accept found middle =>
      rw [read] at accepted
      cases found with
      | none => exact ⟨middle, rfl⟩
      | some operator =>
          by_cases weaker : operator.strength < strength
          · refine ⟨middle, ?_⟩
            simp only [Nat.lt_of_lt_of_le weaker less, if_true]
            rfl
          · simp only [weaker, if_false] at accepted
            -- An operator that binds goes on with an operand, and then there is an answer.
            exfalso
            rw [read_bind] at accepted
            split at accepted
            · rw [read_bind] at accepted
              split at accepted <;> cases accepted
            all_goals cases accepted
  | reject error =>
      rw [read] at accepted
      cases accepted
  | abort error =>
      rw [read] at accepted
      cases accepted

end Continuation

end SoftRules.Grammar
