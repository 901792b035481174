/-!
The exact value of a binary floating point number.
-/

set_option autoImplicit false

namespace SoftRules.Number

/-- The number `mantissa * 2 ^ exponent`, or its opposite. -/
structure Dyadic where
  negative : Bool
  mantissa : Nat
  exponent : Int
  deriving DecidableEq, Repr

namespace Dyadic

/-- The value of a finite number. -/
def ofFloat (x : Float) : Dyadic :=
  let bits := x.toBits.toNat
  let negative := bits / .pow 2 63 == 1
  let biased : Nat := bits / .pow 2 52 % .pow 2 11
  let fraction : Nat := bits % .pow 2 52
  if biased = 0 then ⟨negative, fraction, -1074⟩
  else ⟨negative, .pow 2 52 + fraction, (biased : Int) - 1075⟩

/-- The nearest natural number to the absolute value, a half going up. -/
def roundAbs (x : Dyadic) : Nat :=
  match x.exponent with
  | .ofNat exponent => x.mantissa * .pow 2 exponent
  | .negSucc shift => (x.mantissa + .pow 2 shift) / .pow 2 (shift + 1)

/-- The nearest integer, a half going away from zero. -/
def round (x : Dyadic) : Int :=
  if x.negative then -(x.roundAbs : Int) else x.roundAbs

end Dyadic

end SoftRules.Number
