import SoftRules.Number.Decimal
import SoftRules.Proofs.Parser.Reading
import Mathlib.Data.List.TakeWhile

/-!
Texts of numbers.

A numeral is what may stand in front of a rule as its weight: digits after an optional minus, with
an optional fraction and an optional exponent. Those that denote integers can be read as such.
-/

set_option autoImplicit false

namespace SoftRules.Number

/-- One digit or more. -/
structure IsDigits (text : List Char) : Prop where
  nonempty : text ≠ []
  areDigits : ∀ character ∈ text, character.isDigit = true

/-- `.digits`, or nothing. -/
inductive IsFraction : List Char → Prop
  | none : IsFraction []
  | some {digits : List Char} (isDigits : IsDigits digits) : IsFraction ('.' :: digits)

/-- `e` or `E`, an optional sign and digits, or nothing. -/
inductive IsExponent : List Char → Prop
  | none : IsExponent []
  | some {mark : Char} {sign digits : List Char} (isMark : mark = 'e' ∨ mark = 'E')
      (isSign : sign = [] ∨ sign = ['+'] ∨ sign = ['-']) (isDigits : IsDigits digits) :
      IsExponent (mark :: (sign ++ digits))

inductive IsNumeral : List Char → Prop
  | intro {sign whole fraction exponent : List Char} (isSign : sign = [] ∨ sign = ['-'])
      (isWhole : IsDigits whole) (isFraction : IsFraction fraction)
      (isExponent : IsExponent exponent) : IsNumeral (sign ++ (whole ++ (fraction ++ exponent)))

/-- Numerals of integers, with the integers that they denote. -/
inductive Denotes : List Char → Int → Prop
  | natural {digits : List Char} (isDigits : IsDigits digits) : Denotes digits (ofDigits digits)
  | negative {digits : List Char} (isDigits : IsDigits digits) :
      Denotes ('-' :: digits) (-(ofDigits digits : Int))

/-! Integers. -/

section Integers

variable {text rest : List Char} {value : Int}

theorem IsDigits.exists_cons (isDigits : IsDigits text) :
    ∃ first others, text = first :: others ∧ first.isDigit = true := by
  obtain ⟨first, others, rfl⟩ := List.exists_cons_of_ne_nil isDigits.nonempty
  exact ⟨first, others, rfl, isDigits.areDigits first (List.mem_cons_self ..)⟩

theorem natural?_eq_some_iff {number : Nat} :
    integer?.natural? text = some number ↔ IsDigits text ∧ number = ofDigits text := by
  have digits : (!text.isEmpty && text.all Char.isDigit) = true ↔ IsDigits text := by
    simp only [Bool.and_eq_true, Bool.not_eq_true', List.isEmpty_eq_false_iff, List.all_eq_true]
    exact ⟨fun both => ⟨both.1, both.2⟩, fun both => ⟨both.1, both.2⟩⟩
  unfold integer?.natural?
  split
  · next isDigits => simp [digits.mp isDigits, eq_comm]
  · next other => simp [digits.not.mp other]

theorem integer?_minus (text : List Char) :
    integer? ('-' :: text) = (integer?.natural? text).map fun number : Nat => -(number : Int) := by
  rw [integer?]
  cases integer?.natural? text <;> rfl

theorem integer?_plus (text : List Char) :
    integer? ('+' :: text) = (integer?.natural? text).map Nat.cast := by
  rw [integer?]
  cases integer?.natural? text <;> rfl

theorem integer?_unsigned (noMinus : '-' ∉ text.head?) (noPlus : '+' ∉ text.head?) :
    integer? text = (integer?.natural? text).map Nat.cast := by
  unfold integer?
  split
  · exact absurd rfl noMinus
  · exact absurd rfl noPlus
  · cases integer?.natural? text <;> rfl

theorem IsDigits.unsigned (isDigits : IsDigits text) : '-' ∉ text.head? ∧ '+' ∉ text.head? := by
  obtain ⟨first, others, rfl, isDigit⟩ := isDigits.exists_cons
  constructor
  · rintro ⟨⟩
    cases isDigit
  · rintro ⟨⟩
    cases isDigit

theorem IsDigits.integer?_eq (isDigits : IsDigits text) : integer? text = some (ofDigits text) := by
  rw [integer?_unsigned isDigits.unsigned.1 isDigits.unsigned.2,
    natural?_eq_some_iff.mpr ⟨isDigits, rfl⟩]
  rfl

/-- A text that does not start with a plus is read as the integer that it denotes. -/
theorem integer?_eq_some_iff (noPlus : '+' ∉ text.head?) :
    integer? text = some value ↔ Denotes text value := by
  constructor
  · intro read
    by_cases isMinus : '-' ∈ text.head?
    · obtain ⟨digits, rfl⟩ := List.head?_eq_some_iff.mp isMinus
      rw [integer?_minus, Option.map_eq_some_iff] at read
      obtain ⟨number, read, rfl⟩ := read
      obtain ⟨isDigits, rfl⟩ := natural?_eq_some_iff.mp read
      exact .negative isDigits
    · rw [integer?_unsigned isMinus noPlus, Option.map_eq_some_iff] at read
      obtain ⟨number, read, rfl⟩ := read
      obtain ⟨isDigits, rfl⟩ := natural?_eq_some_iff.mp read
      exact .natural isDigits
  · intro denotes
    cases denotes with
    | natural isDigits => exact isDigits.integer?_eq
    | negative isDigits =>
        rw [integer?_minus, natural?_eq_some_iff.mpr ⟨isDigits, rfl⟩]
        rfl

theorem IsNumeral.no_plus (isNumeral : IsNumeral text) : '+' ∉ text.head? := by
  cases isNumeral with
  | intro isSign isWhole isFraction isExponent =>
      obtain ⟨first, others, rfl, isDigit⟩ := isWhole.exists_cons
      rcases isSign with rfl | rfl
      · rintro ⟨⟩
        cases isDigit
      · rintro ⟨⟩

end Integers

/-! The digits in front of an exponent or a fraction end there. -/

section Ends

variable {text rest : List Char}

theorem IsExponent.no_digit (isExponent : IsExponent text)
    (stops : ∀ first ∈ rest.head?, first.isDigit = false) :
    ∀ first ∈ (text ++ rest).head?, first.isDigit = false := by
  cases isExponent with
  | none => exact stops
  | some isMark =>
      rintro _ ⟨⟩
      rcases isMark with rfl | rfl <;> rfl

theorem IsFraction.no_digit (isFraction : IsFraction text)
    (stops : ∀ first ∈ rest.head?, first.isDigit = false) :
    ∀ first ∈ (text ++ rest).head?, first.isDigit = false := by
  cases isFraction with
  | none => exact stops
  | some =>
      rintro _ ⟨⟩
      rfl

end Ends

end SoftRules.Number
