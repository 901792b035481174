import SoftRules.Number.Dyadic

/-!
The natural logarithm, computed with integers to a precision far beyond that of a floating point
number and rounded once.

With `x = s * 2 ^ k` and `s` between the square roots of one half and of two, `log x` is
`k * log 2 + 2 * artanh ((s - 1) / (s + 1))`.
-/

set_option autoImplicit false

namespace SoftRules.Number

/-- Fixed point numbers count multiples of the inverse of this one. -/
def precision : Int := Nat.pow 2 192

/-- The inverse hyperbolic tangent of `numerator / denominator`, which lies between `-1/3` and
`1/3`, as a fixed point number. The terms beyond the last one are less than a unit. -/
def artanh (numerator denominator : Int) : Int :=
  let z := numerator * precision / denominator
  let square := z * z / precision
  let series := (List.range 64).foldr
    (fun (index : Nat) sum => precision / (2 * index + 1) + square * sum / precision) 0
  z * series / precision

/-- The logarithm of the absolute value of `x` as a fixed point number. -/
def Dyadic.log (x : Dyadic) : Int :=
  let length := x.mantissa.log2
  let mantissa : Int := x.mantissa
  let exponent := x.exponent + length
  let below : Int := Nat.pow 2 length
  let above := 2 * below
  let reduced :=
    if below * above < mantissa * mantissa then
      artanh (mantissa - above) (mantissa + above) + (exponent + 1) * artanh 1 3
    else
      artanh (mantissa - below) (mantissa + below) + exponent * artanh 1 3
  2 * reduced

/-- The natural logarithm of a positive number, correctly rounded. -/
def log (x : Float) : Float :=
  if x.isInf then x
  else Float.ofInt (Dyadic.ofFloat x).log / Float.ofInt precision

end SoftRules.Number
