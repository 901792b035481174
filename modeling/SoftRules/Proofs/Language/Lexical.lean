import SoftRules.Grammar.Term
import SoftRules.Proofs.Language.Erasure

/-!
Terms that can be written and read.

The names, numbers and operations of a lexical term are of the kind that the grammar reads. Such a
term is written unambiguously but for one thing: the negation of a number is written like a negative
number (`Term.reread`). Terms without such negations are faithful.
-/

set_option autoImplicit false

namespace SoftRules

/-! Classes of characters. -/

theorem isUpper_eq (character : Char) :
    character.isUpper = decide (character.val ≥ 'A'.val ∧ character.val ≤ 'Z'.val) := rfl

theorem isLower_eq (character : Char) :
    character.isLower = (decide (character.val ≥ 'a'.val) && decide (character.val ≤ 'z'.val)) :=
  rfl

theorem isAlpha_eq (character : Char) :
    character.isAlpha = (character.isUpper || character.isLower) := rfl

/-! Terms. -/

/-- Whether a name starts with a character of a class and goes on with characters of names. -/
def isName (isFirst : Char → Bool) (name : String) : Bool :=
  match name.toList with
  | [] => false
  | first :: others => isFirst first && others.all Grammar.isNameCharacter

def isVariableStart (character : Char) : Bool := character.isUpper || character == '_'

mutual

/-- Whether the grammar has terms of this kind. -/
def Term.isLexical : Term → Bool
  | .var x => isName isVariableStart x.name
  | .symbol (.number value) _ => Number.fitsInt64 value
  | .symbol (.text _) _ => true
  | .function name arguments _ =>
      (name == "" || isName Char.isLower name) && Term.areLexical arguments
  | .operation operator [operand] _ => operator.isUnary && operand.isLexical
  | .operation operator [left, right] _ =>
      !operator.isUnary && left.isLexical && right.isLexical
  | .operation _ _ _ => false

def Term.areLexical : List Term → Bool
  | [] => true
  | term :: terms => term.isLexical && Term.areLexical terms

end

/-- The negative number as which the negation of a number is written. -/
def Term.signedNumber? : Operator → List Term → Option Int
  | .negation, [.symbol (.number value) _] => if 0 ≤ value then some (-value) else none
  | _, _ => none

theorem Term.signedNumber?_pair (operator : Operator) (left right : Term) :
    Term.signedNumber? operator [left, right] = none := by
  cases operator <;> simp [Term.signedNumber?]

theorem Term.eq_of_signedNumber? {operand : Term} {number : Int}
    (signed : Term.signedNumber? .negation [operand] = some number) :
    ∃ value origin, operand = .symbol (.number value) origin ∧ 0 ≤ value ∧ number = -value := by
  rcases operand with _ | ⟨value | _, origin⟩ | _ | _
  case symbol.number =>
    by_cases natural : 0 ≤ value
    · simp only [Term.signedNumber?, natural, if_true, Option.some.injEq] at signed
      exact ⟨value, origin, rfl, natural, signed.symm⟩
    · simp [Term.signedNumber?, natural] at signed
  all_goals cases signed

mutual

/-- The term that has the same text, without origins. -/
def Term.reread : Term → Term
  | .var x => .var x.erase
  | .symbol value _ => .symbol value
  | .function name arguments _ => .function name (Term.rereadAll arguments)
  | .operation operator operands _ =>
      match Term.signedNumber? operator operands with
      | some value => .number value
      | none => .operation operator (Term.rereadAll operands)

def Term.rereadAll : List Term → List Term
  | [] => []
  | term :: terms => term.reread :: Term.rereadAll terms

end

mutual

/-- Whether no negation of a number occurs that is written like a negative number. -/
def Term.isFaithful : Term → Bool
  | .var _ => true
  | .symbol _ _ => true
  | .function _ arguments _ => Term.areFaithful arguments
  | .operation operator operands _ =>
      (Term.signedNumber? operator operands).isNone && Term.areFaithful operands

def Term.areFaithful : List Term → Bool
  | [] => true
  | term :: terms => term.isFaithful && Term.areFaithful terms

end

mutual

/-- Faithful terms are those that are reread as they are. -/
theorem Term.reread_eq_erase_iff : (term : Term) →
    (term.reread = term.erase ↔ term.isFaithful = true)
  | .var x => by simp [Term.reread, Term.erase, Term.isFaithful]
  | .symbol value _ => by simp [Term.reread, Term.erase, Term.isFaithful]
  | .function name arguments _ => by
      simp [Term.reread, Term.erase, Term.isFaithful, Term.rereadAll_eq_eraseAll_iff arguments]
  | .operation operator operands _ => by
      simp only [Term.reread, Term.erase, Term.isFaithful]
      cases Term.signedNumber? operator operands with
      | some value => simp [Term.number]
      | none => simp [Term.rereadAll_eq_eraseAll_iff operands]

theorem Term.rereadAll_eq_eraseAll_iff : (terms : List Term) →
    (Term.rereadAll terms = Term.eraseAll terms ↔ Term.areFaithful terms = true)
  | [] => by simp [Term.rereadAll, Term.eraseAll, Term.areFaithful]
  | term :: terms => by
      simp [Term.rereadAll, Term.eraseAll, Term.areFaithful, Term.reread_eq_erase_iff term,
        Term.rereadAll_eq_eraseAll_iff terms]

end

theorem Term.areLexical_iff (terms : List Term) :
    Term.areLexical terms = true ↔ ∀ term ∈ terms, term.isLexical = true := by
  induction terms with
  | nil => simp [Term.areLexical]
  | cons term terms inductionHypothesis => simp [Term.areLexical, inductionHypothesis]

theorem Term.renderAll_eq (terms : List Term) : Term.renderAll terms = terms.map Term.render := by
  induction terms with
  | nil => rfl
  | cons term terms inductionHypothesis => rw [Term.renderAll, inductionHypothesis, List.map_cons]

theorem Term.rereadAll_eq (terms : List Term) : Term.rereadAll terms = terms.map Term.reread := by
  induction terms with
  | nil => rfl
  | cons term terms inductionHypothesis => rw [Term.rereadAll, inductionHypothesis, List.map_cons]

/-- The strength of the outermost operator. Terms without one bind as tight as operands do. -/
def Term.strength (term : Term) : Nat :=
  (term.operator?.map Operator.strength).getD Grammar.operandStrength

/-- The least strength of an operator that, behind the term, would go on with its last operand. -/
def Term.tailStrength (term : Term) : Nat :=
  match term.operator? with
  | some operator => if operator.isUnary then Grammar.operandStrength else operator.rightStrength
  | none => Grammar.operandStrength

theorem Term.eq_negation {term : Term} (lexical : term.isLexical = true)
    (isNegation : term.operator? = some .negation) :
    ∃ operand origin, term = .operation .negation [operand] origin := by
  rcases term with _ | _ | _ | ⟨operator, operands, origin⟩
  case operation =>
    cases isNegation
    rcases operands with _ | ⟨operand, _ | ⟨second, _ | _⟩⟩
    · cases lexical
    · exact ⟨operand, origin, rfl⟩
    · cases lexical
    · cases lexical
  all_goals cases isNegation

theorem Term.tailStrength_binary {operator : Operator} (isBinary : operator.isUnary = false)
    (operands : List Term) (origin : Origin) :
    (Term.operation operator operands origin).tailStrength = operator.rightStrength := by
  simp [Term.tailStrength, Term.operator?, isBinary]

theorem Term.strength_le_tailStrength (term : Term) : term.strength ≤ term.tailStrength := by
  rw [Term.strength, Term.tailStrength]
  cases term.operator? with
  | none => exact Nat.le_refl _
  | some operator => cases operator <;> decide

theorem Term.strength_of_unary {operand : Term} (bare : operand.bindsWeakerThanUnary = false) :
    Grammar.operandStrength ≤ operand.strength := by
  rw [Term.bindsWeakerThanUnary] at bare
  rw [Term.strength]
  cases operator : operand.operator? with
  | none => exact Nat.le_refl _
  | some inner =>
      rw [operator] at bare
      cases inner <;> revert bare <;> decide

/-- A left operand that is written without parentheses ends in front of its operator. -/
theorem Term.strength_of_left {outer : Operator} (isBinary : outer.isUnary = false) {operand : Term}
    (bare : operand.bindsWeakerThan outer false = false) :
    outer.strength ≤ operand.strength ∧ outer.strength < operand.tailStrength := by
  rw [Term.bindsWeakerThan] at bare
  rw [Term.strength, Term.tailStrength]
  cases operator : operand.operator? with
  | none => cases outer <;> revert isBinary <;> decide
  | some inner =>
      rw [operator] at bare
      cases outer <;> cases inner <;> revert isBinary bare <;> decide

theorem Term.strength_of_right {outer : Operator} (isBinary : outer.isUnary = false)
    {operand : Term} (bare : operand.bindsWeakerThan outer true = false) :
    outer.rightStrength ≤ operand.strength := by
  rw [Term.bindsWeakerThan] at bare
  rw [Term.strength]
  cases operator : operand.operator? with
  | none => cases outer <;> revert isBinary <;> decide
  | some inner =>
      rw [operator] at bare
      cases outer <;> cases inner <;> revert isBinary bare <;> decide

end SoftRules
