/-!
Powers of ten in floating point arithmetic, by repeated squaring.
-/

set_option autoImplicit false

namespace SoftRules.Number

/-- `result * base ^ exponent`, squaring the base once for each further bit of the exponent. -/
def powerLoop (result base : Float) (exponent : Nat) : Float :=
  let result := if exponent % 2 = 1 then result * base else result
  if exponent / 2 = 0 then result else powerLoop result (base * base) (exponent / 2)
termination_by exponent

/-- Ten to an integer power. Each multiplication rounds; a negative power is the inverse of the
positive one. -/
def tenTo (exponent : Int) : Float :=
  let power := powerLoop 1 10 exponent.natAbs
  if exponent < 0 then 1 / power else power

end SoftRules.Number
