import SoftRules.Number.Integer
import SoftRules.Text.Blank

/-!
Decimal numbers with an optional fraction and exponent, and the binary floating point number
nearest to one.
-/

set_option autoImplicit false

namespace SoftRules.Number

/-- The number `significand * 10 ^ exponent`, or its opposite. -/
structure Decimal where
  negative : Bool := false
  significand : Nat
  exponent : Int := 0
  deriving DecidableEq, Repr

namespace Decimal

/-- The exponent of a number in scientific notation, zero if there is none. -/
def exponent? : List Char → Option Int
  | [] => some 0
  | mark :: text => if mark == 'e' || mark == 'E' then integer? text else none

/-- Digits, of which a point may split off a fraction. One of the two parts may be empty. -/
def unsigned? (negative : Bool) (text : List Char) : Option Decimal :=
  let whole := text.takeWhile Char.isDigit
  let (fraction, rest) :=
    match text.dropWhile Char.isDigit with
    | '.' :: rest => (rest.takeWhile Char.isDigit, rest.dropWhile Char.isDigit)
    | rest => ([], rest)
  if whole.isEmpty && fraction.isEmpty then none
  else
    (exponent? rest).map fun exponent =>
      { negative, significand := ofDigits (whole ++ fraction),
        exponent := exponent - fraction.length }

def read? : List Char → Option Decimal
  | '-' :: text => unsigned? true text
  | '+' :: text => unsigned? false text
  | text => unsigned? false text

/-- The decimal exponent of the least power of ten above the number. -/
def magnitude (number : Decimal) : Int :=
  (Nat.toDigits 10 number.significand).length + number.exponent

/-- The nearest binary floating point number, ties going to the even one. Numbers beyond the range
become infinite or zero. -/
def toFloat (number : Decimal) : Float :=
  let size :=
    if number.significand = 0 || number.magnitude ≤ -324 then 0
    else if 310 ≤ number.magnitude then 1 / 0
    else .ofScientific number.significand (number.exponent < 0) number.exponent.natAbs
  if number.negative then -size else size

end Decimal

/-- The words for infinity and for no number, in any case. -/
def word? (text : List Char) : Option Float :=
  let lower := String.ofList (text.map Char.toLower)
  if lower == "inf" || lower == "infinity" then some (1 / 0)
  else if lower == "nan" then some (0 / 0)
  else none

/-- Reads a decimal number, or one of the words with an optional sign. -/
def floating? (text : List Char) : Option Float :=
  match Decimal.read? text with
  | some number => some number.toFloat
  | none =>
      match text with
      | '-' :: text => (word? text).map fun value => -value
      | '+' :: text => word? text
      | text => word? text

/-- The characters that decimal numbers are made of. -/
def isNumeric (character : Char) : Bool :=
  character.isDigit || ['+', '-', '.', 'e', 'E'].contains character

/-- Reads a decimal number, around which blanks do not count. Words do not pass. -/
def read? (text : String) : Option Float :=
  let text := Text.trim text.toList
  if text.all isNumeric && text.any Char.isDigit then floating? text else none

/-- The nearest binary floating point number of an integer. -/
def ofInteger (value : Int) : Float :=
  Decimal.toFloat { negative := value < 0, significand := value.natAbs }

end SoftRules.Number
