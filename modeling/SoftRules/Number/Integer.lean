/-!
Decimal integers and the ranges of 32 and 64 bits.
-/

set_option autoImplicit false

namespace SoftRules.Number

/-- The number that a list of ASCII digits denotes. -/
def ofDigits (digits : List Char) : Nat :=
  digits.foldl (fun value digit => 10 * value + (digit.toNat - '0'.toNat)) 0

def minInt64 : Int := -9223372036854775808

def maxInt64 : Int := 9223372036854775807

def fitsInt64 (value : Int) : Bool :=
  minInt64 ≤ value && value ≤ maxInt64

def fitsInt32 (value : Int) : Bool :=
  -2147483648 ≤ value && value ≤ 2147483647

/-- Reads a nonempty list of digits after an optional sign. -/
def integer? (text : List Char) : Option Int :=
  match text with
  | '-' :: digits => (natural? digits).map fun value => -(value : Int)
  | '+' :: digits => (natural? digits).map fun value => (value : Int)
  | digits => (natural? digits).map fun value => (value : Int)
where
  natural? (digits : List Char) : Option Nat :=
    if !digits.isEmpty && digits.all Char.isDigit then some (ofDigits digits) else none

end SoftRules.Number
