import SoftRules.Proofs.Number.Numeral
import Mathlib.Computability.Language

/-!
The texts that are read as decimal numbers.

They are the words of a regular language, between blanks. The words for infinity and for no number
do not belong to it, and neither do two numbers with an operator between them. The numerals that
stand in front of a rule as its weight do.
-/

set_option autoImplicit false

namespace SoftRules.Number

open Computability

/-! The language. -/

namespace Spelling

def digit : Language Char :=
  ({text | ∃ character : Char, character.isDigit = true ∧ text = [character]} : Set (List Char))

/-- One digit or more. -/
def digits : Language Char := digit * digit∗

def sign : Language Char := 1 + {['+']} + {['-']}

/-- Digits with an optional point between or behind them, or a point in front of digits. -/
def mantissa : Language Char := digits * (1 + {['.']} * digit∗) + {['.']} * digits

def exponent : Language Char := 1 + ({['e']} + {['E']}) * sign * digits

def decimal : Language Char := sign * mantissa * exponent

variable {text : List Char}

theorem mem_star_digit : text ∈ digit∗ ↔ ∀ character ∈ text, character.isDigit = true := by
  rw [Language.mem_kstar]
  constructor
  · rintro ⟨parts, rfl, areDigits⟩ character member
    obtain ⟨part, isPart, inPart⟩ := List.mem_flatten.mp member
    obtain ⟨first, isDigit, rfl⟩ := areDigits part isPart
    rwa [List.mem_singleton.mp inPart]
  · intro areDigits
    refine ⟨text.map fun character => [character], ?_, ?_⟩
    · rw [← List.flatMap_def, List.flatMap_singleton']
    · intro part member
      obtain ⟨character, isCharacter, rfl⟩ := List.mem_map.mp member
      exact ⟨character, areDigits character isCharacter, rfl⟩

theorem mem_digits : text ∈ digits ↔ IsDigits text := by
  rw [digits, Language.mem_mul]
  constructor
  · rintro ⟨_, ⟨first, isDigit, rfl⟩, others, areDigits, rfl⟩
    exact ⟨by simp, List.forall_mem_cons.mpr ⟨isDigit, mem_star_digit.mp areDigits⟩⟩
  · intro isDigits
    obtain ⟨first, others, rfl, isDigit⟩ := isDigits.exists_cons
    exact ⟨[first], ⟨first, isDigit, rfl⟩, others,
      mem_star_digit.mpr (List.forall_mem_cons.mp isDigits.areDigits).2, rfl⟩

theorem mem_sign : text ∈ sign ↔ text = [] ∨ text = ['+'] ∨ text = ['-'] := or_assoc

/-- A mantissa is made of digits, with a point among them or without one. -/
theorem mem_mantissa : text ∈ mantissa ↔ IsDigits text ∨ ∃ whole fraction,
    IsDigits (whole ++ fraction) ∧ text = whole ++ '.' :: fraction := by
  rw [mantissa, Language.mem_add, Language.mem_mul, Language.mem_mul]
  constructor
  · rintro (⟨whole, isWhole, rest, rfl | ⟨_, rfl, fraction, areDigits, rfl⟩, rfl⟩ |
      ⟨_, rfl, fraction, isFraction, rfl⟩)
    · rw [List.append_nil]
      exact .inl (mem_digits.mp isWhole)
    · have isWhole := mem_digits.mp isWhole
      refine .inr ⟨whole, fraction, ⟨by simp [isWhole.nonempty], ?_⟩, rfl⟩
      exact List.forall_mem_append.mpr ⟨isWhole.areDigits, mem_star_digit.mp areDigits⟩
    · exact .inr ⟨[], fraction, mem_digits.mp isFraction, rfl⟩
  · rintro (isDigits | ⟨whole, fraction, isDigits, rfl⟩)
    · exact .inl ⟨text, mem_digits.mpr isDigits, [], .inl rfl, List.append_nil text⟩
    · obtain ⟨inWhole, inFraction⟩ := List.forall_mem_append.mp isDigits.areDigits
      by_cases empty : whole = []
      · subst empty
        exact .inr ⟨['.'], rfl, fraction, mem_digits.mpr isDigits, rfl⟩
      · exact .inl ⟨whole, mem_digits.mpr ⟨empty, inWhole⟩, '.' :: fraction,
          .inr ⟨['.'], rfl, fraction, mem_star_digit.mpr inFraction, rfl⟩, rfl⟩

theorem mem_exponent : text ∈ exponent ↔ IsExponent text := by
  rw [exponent, Language.mem_add, Language.mem_one, Language.mem_mul]
  constructor
  · rintro (rfl | ⟨_, ⟨_, isMark, sign, isSign, rfl⟩, digits, isDigits, rfl⟩)
    · exact .none
    · have isSign := mem_sign.mp isSign
      have isDigits := mem_digits.mp isDigits
      rcases isMark with rfl | rfl
      · exact .some (.inl rfl) isSign isDigits
      · exact .some (.inr rfl) isSign isDigits
  · rintro (_ | ⟨isMark, isSign, isDigits⟩)
    · exact .inl rfl
    · refine .inr ⟨_, ⟨[_], ?_, _, mem_sign.mpr isSign, rfl⟩, _, mem_digits.mpr isDigits, rfl⟩
      rcases isMark with rfl | rfl
      · exact .inl rfl
      · exact .inr rfl

end Spelling

/-! What is read as a decimal number. -/

section Reading

variable {text whole fraction rest : List Char}

theorem natural?_isSome_iff : (integer?.natural? text).isSome = true ↔ IsDigits text := by
  rw [Option.isSome_iff_exists]
  exact ⟨fun ⟨_, read⟩ => (natural?_eq_some_iff.mp read).1,
    fun isDigits => ⟨_, natural?_eq_some_iff.mpr ⟨isDigits, rfl⟩⟩⟩

/-- A sign in front of digits is read, whatever stands behind the digits. -/
theorem integer?_signed {sign digits : List Char} (isSign : sign = [] ∨ sign = ['+'] ∨ sign = ['-'])
    (isDigits : IsDigits digits) (rest : List Char) :
    (integer? (sign ++ (digits ++ rest))).isSome = true ↔ IsDigits (digits ++ rest) := by
  rw [← natural?_isSome_iff]
  rcases isSign with rfl | rfl | rfl
  · obtain ⟨first, others, rfl, -⟩ := isDigits.exists_cons
    have unsigned : integer? (first :: others ++ rest) = _ :=
      integer?_unsigned isDigits.unsigned.1 isDigits.unsigned.2
    rw [List.nil_append, unsigned, Option.isSome_map]
  · rw [List.singleton_append, integer?_plus, Option.isSome_map]
  · rw [List.singleton_append, integer?_minus, Option.isSome_map]

theorem integer?_isSome_iff : (integer? text).isSome = true ↔
    ∃ sign digits, (sign = [] ∨ sign = ['+'] ∨ sign = ['-']) ∧ IsDigits digits ∧
      text = sign ++ digits := by
  constructor
  · intro read
    by_cases isMinus : '-' ∈ text.head?
    · obtain ⟨digits, rfl⟩ := List.head?_eq_some_iff.mp isMinus
      rw [integer?_minus, Option.isSome_map, natural?_isSome_iff] at read
      exact ⟨['-'], digits, .inr (.inr rfl), read, rfl⟩
    · by_cases isPlus : '+' ∈ text.head?
      · obtain ⟨digits, rfl⟩ := List.head?_eq_some_iff.mp isPlus
        rw [integer?_plus, Option.isSome_map, natural?_isSome_iff] at read
        exact ⟨['+'], digits, .inr (.inl rfl), read, rfl⟩
      · rw [integer?_unsigned isMinus isPlus, Option.isSome_map, natural?_isSome_iff] at read
        exact ⟨[], text, .inl rfl, read, rfl⟩
  · rintro ⟨sign, digits, isSign, isDigits, rfl⟩
    simpa using (integer?_signed isSign isDigits []).mpr (by simpa using isDigits)

theorem exponent?_isSome_iff : (Decimal.exponent? text).isSome = true ↔ IsExponent text := by
  constructor
  · intro read
    cases text with
    | nil => exact .none
    | cons mark text =>
        simp only [Decimal.exponent?] at read
        split at read
        · next marked =>
            obtain ⟨sign, digits, isSign, isDigits, rfl⟩ := integer?_isSome_iff.mp read
            exact .some (by simpa using marked) isSign isDigits
        · cases read
  · rintro (_ | ⟨isMark, isSign, isDigits⟩)
    · rfl
    · rw [Decimal.exponent?, if_pos (by simpa using isMark)]
      exact integer?_isSome_iff.mpr ⟨_, _, isSign, isDigits, rfl⟩

theorem IsExponent.no_point (isExponent : IsExponent text) (stops : '.' ∉ rest.head?) :
    '.' ∉ (text ++ rest).head? := by
  cases isExponent with
  | none => exact stops
  | some isMark => rcases isMark with rfl | rfl <;> simp

/-- An exponent ends in front of everything but a digit. -/
theorem IsExponent.not_append (isExponent : IsExponent text)
    (stops : ∀ first ∈ rest.head?, first.isDigit = false ∧ first ≠ 'e' ∧ first ≠ 'E')
    (nonempty : rest ≠ []) : ¬ IsExponent (text ++ rest) := by
  obtain ⟨first, others, rfl⟩ := List.exists_cons_of_ne_nil nonempty
  obtain ⟨noDigit, noMark⟩ := stops first rfl
  rw [← exponent?_isSome_iff]
  cases isExponent with
  | none => simp [Decimal.exponent?, noMark]
  | @some mark sign digits isMark isSign isDigits =>
      have marked : (mark == 'e' || mark == 'E') = true := by simpa using isMark
      simp only [List.cons_append, List.append_assoc, Decimal.exponent?, marked, if_true]
      rw [integer?_signed isSign isDigits]
      intro longer
      have isDigit := longer.areDigits first (by simp)
      rw [noDigit] at isDigit
      cases isDigit

theorem unsigned?_whole (areDigits : ∀ character ∈ whole, character.isDigit = true)
    (stops : ∀ first ∈ rest.head?, first.isDigit = false) (noPoint : '.' ∉ rest.head?)
    (negative : Bool) : (Decimal.unsigned? negative (whole ++ rest)).isSome = true ↔
      whole ≠ [] ∧ IsExponent rest := by
  rw [← exponent?_isSome_iff]
  unfold Decimal.unsigned?
  rw [Parser.takeWhile_append areDigits stops, Parser.dropWhile_append stops,
    List.dropWhile_eq_nil_iff.mpr areDigits, List.nil_append]
  split
  next found =>
    split at found
    · exact absurd rfl noPoint
    · cases found
      by_cases empty : whole = []
      · simp [empty]
      · simp [empty]

theorem unsigned?_pointed (inWhole : ∀ character ∈ whole, character.isDigit = true)
    (inFraction : ∀ character ∈ fraction, character.isDigit = true)
    (stops : ∀ first ∈ rest.head?, first.isDigit = false) (negative : Bool) :
    (Decimal.unsigned? negative (whole ++ '.' :: (fraction ++ rest))).isSome = true ↔
      whole ++ fraction ≠ [] ∧ IsExponent rest := by
  have stopsAtPoint : ∀ first ∈ ('.' :: (fraction ++ rest)).head?, first.isDigit = false := by
    rintro _ ⟨⟩
    rfl
  rw [← exponent?_isSome_iff]
  unfold Decimal.unsigned?
  rw [Parser.takeWhile_append inWhole stopsAtPoint, Parser.dropWhile_append stopsAtPoint,
    List.dropWhile_eq_nil_iff.mpr inWhole, List.nil_append]
  simp only [Parser.takeWhile_append inFraction stops, Parser.dropWhile_append stops,
    List.dropWhile_eq_nil_iff.mpr inFraction, List.nil_append]
  by_cases empty : whole = []
  · by_cases none : fraction = []
    · simp [empty, none]
    · simp [empty, none]
  · simp [empty]

/-- Every text starts with digits. They end at a point with digits behind it, or somewhere else. -/
theorem exists_digits (text : List Char) :
    (∃ whole rest, text = whole ++ rest ∧ (∀ character ∈ whole, character.isDigit = true) ∧
      (∀ first ∈ rest.head?, first.isDigit = false) ∧ '.' ∉ rest.head?) ∨
    ∃ whole fraction rest, text = whole ++ '.' :: (fraction ++ rest) ∧
      (∀ character ∈ whole, character.isDigit = true) ∧
      (∀ character ∈ fraction, character.isDigit = true) ∧
      ∀ first ∈ rest.head?, first.isDigit = false := by
  have split (text : List Char) : ∃ digits rest, text = digits ++ rest ∧
      (∀ character ∈ digits, character.isDigit = true) ∧
      ∀ first ∈ rest.head?, first.isDigit = false :=
    ⟨text.takeWhile Char.isDigit, text.dropWhile Char.isDigit, List.takeWhile_append_dropWhile.symm,
      fun _ member => List.mem_takeWhile_imp member, Parser.head_dropWhile⟩
  obtain ⟨whole, rest, rfl, inWhole, stops⟩ := split text
  by_cases isPoint : '.' ∈ rest.head?
  · obtain ⟨behind, rfl⟩ := List.head?_eq_some_iff.mp isPoint
    obtain ⟨fraction, rest, rfl, inFraction, stops⟩ := split behind
    exact .inr ⟨whole, fraction, rest, rfl, inWhole, inFraction, stops⟩
  · exact .inl ⟨whole, rest, rfl, inWhole, stops, isPoint⟩

theorem unsigned?_mantissa (isMantissa : text ∈ Spelling.mantissa)
    (stops : ∀ first ∈ rest.head?, first.isDigit = false) (noPoint : '.' ∉ rest.head?)
    (negative : Bool) :
    (Decimal.unsigned? negative (text ++ rest)).isSome = true ↔ IsExponent rest := by
  obtain isDigits | ⟨whole, fraction, isDigits, rfl⟩ := Spelling.mem_mantissa.mp isMantissa
  · rw [unsigned?_whole isDigits.areDigits stops noPoint]
    exact and_iff_right isDigits.nonempty
  · obtain ⟨inWhole, inFraction⟩ := List.forall_mem_append.mp isDigits.areDigits
    rw [List.append_assoc, List.cons_append, unsigned?_pointed inWhole inFraction stops]
    exact and_iff_right isDigits.nonempty

theorem exists_mantissa {negative : Bool}
    (read : (Decimal.unsigned? negative text).isSome = true) :
    text ∈ Spelling.mantissa * Spelling.exponent := by
  obtain ⟨whole, rest, rfl, inWhole, stops, noPoint⟩ |
    ⟨whole, fraction, rest, rfl, inWhole, inFraction, stops⟩ := exists_digits text
  · obtain ⟨nonempty, isExponent⟩ := (unsigned?_whole inWhole stops noPoint negative).mp read
    exact Language.append_mem_mul (Spelling.mem_mantissa.mpr (.inl ⟨nonempty, inWhole⟩))
      (Spelling.mem_exponent.mpr isExponent)
  · obtain ⟨nonempty, isExponent⟩ := (unsigned?_pointed inWhole inFraction stops negative).mp read
    have areDigits := List.forall_mem_append.mpr ⟨inWhole, inFraction⟩
    rw [← List.cons_append, ← List.append_assoc]
    exact Language.append_mem_mul
      (Spelling.mem_mantissa.mpr (.inr ⟨whole, fraction, ⟨nonempty, areDigits⟩, rfl⟩))
      (Spelling.mem_exponent.mpr isExponent)

theorem no_sign_of_mem_mantissa (isMantissa : text ∈ Spelling.mantissa) :
    '-' ∉ (text ++ rest).head? ∧ '+' ∉ (text ++ rest).head? := by
  obtain isDigits | ⟨whole, fraction, isDigits, rfl⟩ := Spelling.mem_mantissa.mp isMantissa
  · obtain ⟨first, others, rfl, -⟩ := isDigits.exists_cons
    exact isDigits.unsigned
  · cases whole with
    | nil => exact ⟨by simp, by simp⟩
    | cons first whole => exact isDigits.unsigned

theorem decimal_read?_unsigned (noMinus : '-' ∉ text.head?) (noPlus : '+' ∉ text.head?) :
    Decimal.read? text = Decimal.unsigned? false text := by
  unfold Decimal.read?
  split
  · exact absurd rfl noMinus
  · exact absurd rfl noPlus
  · rfl

/-- Behind a sign and a mantissa only an exponent may stand. -/
theorem decimal_read?_signed {sign mantissa : List Char} (isSign : sign ∈ Spelling.sign)
    (isMantissa : mantissa ∈ Spelling.mantissa)
    (stops : ∀ first ∈ rest.head?, first.isDigit = false) (noPoint : '.' ∉ rest.head?) :
    (Decimal.read? (sign ++ (mantissa ++ rest))).isSome = true ↔ IsExponent rest := by
  have read := unsigned?_mantissa isMantissa stops noPoint
  obtain rfl | rfl | rfl := Spelling.mem_sign.mp isSign
  · obtain ⟨noMinus, noPlus⟩ := @no_sign_of_mem_mantissa mantissa rest isMantissa
    rw [List.nil_append, decimal_read?_unsigned noMinus noPlus, read]
  · exact read false
  · exact read true

theorem decimal_read?_isSome_iff :
    (Decimal.read? text).isSome = true ↔ text ∈ Spelling.decimal := by
  rw [Spelling.decimal, mul_assoc, Language.mem_mul]
  constructor
  · intro read
    unfold Decimal.read? at read
    split at read
    · next text => exact ⟨['-'], .inr rfl, text, exists_mantissa read, rfl⟩
    · next text => exact ⟨['+'], .inl (.inr rfl), text, exists_mantissa read, rfl⟩
    · exact ⟨[], .inl (.inl rfl), text, exists_mantissa read, rfl⟩
  · rintro ⟨sign, isSign, _, ⟨mantissa, isMantissa, exponent, isExponent, rfl⟩, rfl⟩
    have isExponent := Spelling.mem_exponent.mp isExponent
    have stops := @IsExponent.no_digit exponent [] isExponent (by simp)
    have noPoint := @IsExponent.no_point exponent [] isExponent (by simp)
    rw [List.append_nil] at stops noPoint
    exact (decimal_read?_signed isSign isMantissa stops noPoint).mpr isExponent

/-- A decimal number ends in front of everything that is neither a digit nor a point or a mark. -/
theorem not_mem_decimal_append {left right : List Char} {next : Char}
    (isDecimal : left ∈ Spelling.decimal) (noDigit : next.isDigit = false)
    (noMark : next ∉ ['.', 'e', 'E']) : left ++ next :: right ∉ Spelling.decimal := by
  simp only [List.mem_cons, List.not_mem_nil, or_false, not_or] at noMark
  obtain ⟨_, ⟨sign, isSign, mantissa, isMantissa, rfl⟩, exponent, isExponent, rfl⟩ := isDecimal
  have isExponent := Spelling.mem_exponent.mp isExponent
  have stops : ∀ first ∈ (exponent ++ next :: right).head?, first.isDigit = false :=
    isExponent.no_digit (by simpa using noDigit)
  have noPoint : '.' ∉ (exponent ++ next :: right).head? :=
    isExponent.no_point (by simpa using noMark.1)
  simp only [List.append_assoc]
  rw [← decimal_read?_isSome_iff, decimal_read?_signed isSign isMantissa stops noPoint]
  exact isExponent.not_append (by simpa using ⟨noDigit, noMark.2⟩) (List.cons_ne_nil _ _)

end Reading

/-! The characters of decimal numbers. -/

section Characters

variable {text : List Char} {character : Char}

theorem isNumeric_of_isDigit (isDigit : character.isDigit = true) : isNumeric character = true := by
  simp [isNumeric, isDigit]

theorem IsDigits.numeric (isDigits : IsDigits text) :
    ∀ character ∈ text, isNumeric character = true :=
  fun character member => isNumeric_of_isDigit (isDigits.areDigits character member)

theorem numeric_of_mem_mantissa (isMantissa : text ∈ Spelling.mantissa) :
    ∀ character ∈ text, isNumeric character = true := by
  obtain isDigits | ⟨whole, fraction, isDigits, rfl⟩ := Spelling.mem_mantissa.mp isMantissa
  · exact isDigits.numeric
  · obtain ⟨inWhole, inFraction⟩ := List.forall_mem_append.mp isDigits.numeric
    exact List.forall_mem_append.mpr ⟨inWhole, List.forall_mem_cons.mpr ⟨rfl, inFraction⟩⟩

theorem IsExponent.numeric (isExponent : IsExponent text) :
    ∀ character ∈ text, isNumeric character = true := by
  cases isExponent with
  | none => exact List.forall_mem_nil _
  | some isMark isSign isDigits =>
      refine List.forall_mem_cons.mpr ⟨?_, List.forall_mem_append.mpr ⟨?_, isDigits.numeric⟩⟩
      · rcases isMark with rfl | rfl <;> rfl
      · rcases isSign with rfl | rfl | rfl
        · exact List.forall_mem_nil _
        · exact List.forall_mem_singleton.mpr rfl
        · exact List.forall_mem_singleton.mpr rfl

theorem numeric_of_mem_decimal (isDecimal : text ∈ Spelling.decimal) :
    ∀ character ∈ text, isNumeric character = true := by
  obtain ⟨_, ⟨sign, isSign, mantissa, isMantissa, rfl⟩, exponent, isExponent, rfl⟩ := isDecimal
  refine List.forall_mem_append.mpr ⟨List.forall_mem_append.mpr
    ⟨?_, numeric_of_mem_mantissa isMantissa⟩, (Spelling.mem_exponent.mp isExponent).numeric⟩
  obtain rfl | rfl | rfl := Spelling.mem_sign.mp isSign
  · exact List.forall_mem_nil _
  · exact List.forall_mem_singleton.mpr rfl
  · exact List.forall_mem_singleton.mpr rfl

theorem exists_digit_of_mem_decimal (isDecimal : text ∈ Spelling.decimal) :
    ∃ character ∈ text, character.isDigit = true := by
  obtain ⟨_, ⟨sign, isSign, mantissa, isMantissa, rfl⟩, exponent, isExponent, rfl⟩ := isDecimal
  have inMantissa : ∃ character ∈ mantissa, character.isDigit = true := by
    obtain isDigits | ⟨whole, fraction, isDigits, rfl⟩ := Spelling.mem_mantissa.mp isMantissa
    · obtain ⟨first, others, rfl, isDigit⟩ := isDigits.exists_cons
      exact ⟨first, List.mem_cons_self .., isDigit⟩
    · obtain ⟨first, others, isFirst, isDigit⟩ := isDigits.exists_cons
      have member : first ∈ whole ++ fraction := by simp [isFirst]
      refine ⟨first, ?_, isDigit⟩
      simp only [List.mem_append, List.mem_cons] at member ⊢
      tauto
  obtain ⟨character, member, isDigit⟩ := inMantissa
  exact ⟨character, by simp [member], isDigit⟩

theorem isNumeric_cases (numeric : isNumeric character = true) :
    48 ≤ character.toNat ∧ character.toNat ≤ 57 ∨ character ∈ ['+', '-', '.', 'e', 'E'] := by
  rcases Bool.or_eq_true_iff.mp numeric with isDigit | isMark
  · simp only [Char.isDigit, Bool.and_eq_true, decide_eq_true_eq, ge_iff_le,
      UInt32.le_iff_toNat_le] at isDigit
    exact .inl isDigit
  · exact .inr (List.contains_iff_mem.mp isMark)

/-- No character of a decimal number is blank. -/
theorem isBlank_of_isNumeric (numeric : isNumeric character = true) :
    Text.isBlank character = false := by
  rcases isNumeric_cases numeric with isDigit | isMark
  · simp only [Text.isBlank, Text.blankRanges, List.any_cons, List.any_nil, Bool.or_false,
      Bool.or_eq_false_iff, Bool.and_eq_false_iff, decide_eq_false_iff_not]
    omega
  · simp only [List.mem_cons, List.not_mem_nil, or_false] at isMark
    rcases isMark with rfl | rfl | rfl | rfl | rfl <;> decide

theorem toLower_ne_of_isNumeric (numeric : isNumeric character = true) :
    character.toLower ≠ 'n' := by
  rcases isNumeric_cases numeric with isDigit | isMark
  · have notUpper : ¬ (character.val ≥ 'A'.val ∧ character.val ≤ 'Z'.val) := by
      rintro ⟨above, -⟩
      have above : 65 ≤ character.toNat := UInt32.le_iff_toNat_le.mp above
      omega
    have same : character.toLower = character := dif_neg notUpper
    rw [same]
    rintro rfl
    exact absurd isDigit (by decide)
  · simp only [List.mem_cons, List.not_mem_nil, or_false] at isMark
    rcases isMark with rfl | rfl | rfl | rfl | rfl <;> decide

/-- All words for infinity and for no number have an `n`. -/
theorem word?_eq_none_of_numeric (numeric : ∀ character ∈ text, isNumeric character = true) :
    word? text = none := by
  have other : 'n' ∉ text.map Char.toLower := by
    intro member
    obtain ⟨character, isCharacter, isLetter⟩ := List.mem_map.mp member
    exact toLower_ne_of_isNumeric (numeric character isCharacter) isLetter
  have unlike (word : String) (letter : 'n' ∈ word.toList) :
      String.ofList (text.map Char.toLower) ≠ word := by
    rintro rfl
    exact other (by simpa using letter)
  simp [word?, unlike "inf" (by decide), unlike "infinity" (by decide), unlike "nan" (by decide)]

end Characters

/-! Blanks around a number. -/

section Blanks

variable {before number after : List Char}

theorem exists_trim (text : List Char) : ∃ before after, text = before ++ Text.trim text ++ after ∧
    ∀ character ∈ before ++ after, Text.isBlank character = true := by
  refine ⟨text.takeWhile Text.isBlank,
    ((text.dropWhile Text.isBlank).reverse.takeWhile Text.isBlank).reverse, ?_, ?_⟩
  · rw [Text.trim, List.append_assoc, ← List.reverse_append, List.takeWhile_append_dropWhile,
      List.reverse_reverse, List.takeWhile_append_dropWhile]
  · intro character member
    rcases List.mem_append.mp member with inFront | behind
    · exact List.mem_takeWhile_imp inFront
    · exact List.mem_takeWhile_imp (List.mem_reverse.mp behind)

theorem trim_append (blank : ∀ character ∈ before ++ after, Text.isBlank character = true)
    (visible : ∀ character ∈ number, Text.isBlank character = false) :
    Text.trim (before ++ number ++ after) = number := by
  obtain ⟨inFront, behind⟩ := List.forall_mem_append.mp blank
  have kept {text : List Char} (visible : ∀ character ∈ text, Text.isBlank character = false) :
      text.dropWhile Text.isBlank = text :=
    Parser.dropWhile_of_head fun first isFirst => visible first (List.mem_of_mem_head? isFirst)
  rw [Text.trim, List.append_assoc, List.dropWhile_append_of_pos inFront]
  cases number with
  | nil => rw [List.nil_append, List.dropWhile_eq_nil_iff.mpr behind]; rfl
  | cons first others =>
      have stays : (first :: others ++ after).dropWhile Text.isBlank = first :: others ++ after :=
        Parser.dropWhile_of_head (by simpa using visible first (List.mem_cons_self ..))
      rw [stays, List.reverse_append, List.dropWhile_append_of_pos (by simpa using behind),
        kept fun character member => visible character (List.mem_reverse.mp member),
        List.reverse_reverse]

end Blanks

/-! The filter in front of the reader. -/

section Filter

theorem floating?_of_numeric {text : List Char}
    (numeric : ∀ character ∈ text, isNumeric character = true) :
    floating? text = (Decimal.read? text).map Decimal.toFloat := by
  unfold floating?
  cases Decimal.read? text with
  | some number => rfl
  | none =>
      simp only [Option.map_none]
      split
      · rw [word?_eq_none_of_numeric (List.forall_mem_cons.mp numeric).2, Option.map_none]
      · exact word?_eq_none_of_numeric (List.forall_mem_cons.mp numeric).2
      · exact word?_eq_none_of_numeric numeric

/-- The filter keeps the words out and lets all decimal numbers pass. -/
theorem read?_eq (text : String) :
    read? text = (Decimal.read? (Text.trim text.toList)).map Decimal.toFloat := by
  simp only [read?]
  split
  · next passes =>
      exact floating?_of_numeric (List.all_eq_true.mp (Bool.and_eq_true_iff.mp passes).1)
  · next stopped =>
      have other : Text.trim text.toList ∉ Spelling.decimal := by
        intro isDecimal
        apply stopped
        rw [Bool.and_eq_true_iff, List.all_eq_true, List.any_eq_true]
        exact ⟨numeric_of_mem_decimal isDecimal, exists_digit_of_mem_decimal isDecimal⟩
      rw [← decimal_read?_isSome_iff, Option.not_isSome_iff_eq_none] at other
      rw [other, Option.map_none]

theorem read?_isSome_iff {text : String} :
    (read? text).isSome = true ↔ Text.trim text.toList ∈ Spelling.decimal := by
  rw [read?_eq, Option.isSome_map, decimal_read?_isSome_iff]

theorem IsNumeral.mem_decimal {text : List Char} (isNumeral : IsNumeral text) :
    text ∈ Spelling.decimal := by
  cases isNumeral with
  | @intro sign whole fraction exponent isSign isWhole isFraction isExponent =>
      rw [Spelling.decimal, mul_assoc, ← List.append_assoc whole]
      refine Language.append_mem_mul ?_ (Language.append_mem_mul ?_
        (Spelling.mem_exponent.mpr isExponent))
      · rcases isSign with rfl | rfl
        · exact .inl (.inl rfl)
        · exact .inr rfl
      · cases isFraction with
        | none => exact Spelling.mem_mantissa.mpr (.inl (by rwa [List.append_nil]))
        | @some digits isDigits =>
            have areDigits := List.forall_mem_append.mpr ⟨isWhole.areDigits, isDigits.areDigits⟩
            exact Spelling.mem_mantissa.mpr
              (.inr ⟨whole, digits, ⟨by simp [isWhole.nonempty], areDigits⟩, rfl⟩)

/-- Every numeral can be read. -/
theorem IsNumeral.exists_read? {text : List Char} (isNumeral : IsNumeral text) :
    ∃ value, read? (String.ofList text) = some value := by
  have isDecimal := isNumeral.mem_decimal
  have visible : ∀ character ∈ text, Text.isBlank character = false :=
    fun character member => isBlank_of_isNumeric (numeric_of_mem_decimal isDecimal character member)
  have kept : Text.trim text = text := by
    simpa using @trim_append [] text [] (by simp) visible
  rw [← Option.isSome_iff_exists, read?_isSome_iff, String.toList_ofList, kept]
  exact isDecimal

/-- A text is read exactly if it is a decimal number between blanks. Words for infinity and for no
number are not read, and neither is a number with an operator behind it. -/
theorem read?_isSome_iff_spelled (text : String) :
    ((read? text).isSome = true ↔ ∃ before number after, text.toList = before ++ number ++ after ∧
      (∀ character ∈ before ++ after, Text.isBlank character = true) ∧
      number ∈ Spelling.decimal) ∧
    (∀ before word, Text.trim text.toList = before ++ word → (word? word).isSome = true →
      read? text = none) ∧
    ∀ left operator right, Text.trim text.toList = left ++ operator :: right →
      left ∈ Spelling.decimal → operator ∈ ['+', '-', '*', '/'] → read? text = none := by
  refine ⟨⟨fun read => ?_, ?_⟩, ?_, ?_⟩
  · obtain ⟨before, after, isText, blank⟩ := exists_trim text.toList
    exact ⟨before, _, after, isText, blank, read?_isSome_iff.mp read⟩
  · rintro ⟨before, number, after, isText, blank, isDecimal⟩
    have visible : ∀ character ∈ number, Text.isBlank character = false := fun character member =>
      isBlank_of_isNumeric (numeric_of_mem_decimal isDecimal character member)
    rw [read?_isSome_iff, isText, trim_append blank visible]
    exact isDecimal
  · intro before word isText isWord
    rw [← Option.not_isSome_iff_eq_none, read?_isSome_iff, isText]
    intro isDecimal
    have numeric := (List.forall_mem_append.mp (numeric_of_mem_decimal isDecimal)).2
    rw [word?_eq_none_of_numeric numeric] at isWord
    cases isWord
  · intro left operator right isText isDecimal isOperator
    rw [← Option.not_isSome_iff_eq_none, read?_isSome_iff, isText]
    simp only [List.mem_cons, List.not_mem_nil, or_false] at isOperator
    refine not_mem_decimal_append isDecimal ?_ ?_
    · rcases isOperator with rfl | rfl | rfl | rfl <;> rfl
    · rcases isOperator with rfl | rfl | rfl | rfl <;> decide

end Filter

end SoftRules.Number
