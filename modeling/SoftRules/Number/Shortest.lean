import SoftRules.Number.Dyadic

/-!
The shortest decimal text that reads back as a given binary floating point number.

A decimal reads back if it lies between the midpoints to the two neighbouring numbers. The text
uses the coarsest power of ten that has a multiple there, and of its multiples the nearest one.
-/

set_option autoImplicit false

namespace SoftRules.Number

namespace Dyadic

/-- The nearest multiple of `10 ^ grid` that lies between the midpoints to the neighbours of the
absolute value of `x`, if there is one. A midpoint counts if the mantissa is even, and of two
multiples at the same distance the greater one is taken. -/
def nearest? (x : Dyadic) (grid : Int) : Option Nat :=
  -- everything is measured in quarters of the last place
  let value := 4 * x.mantissa
  let below := if x.mantissa = .pow 2 52 ∧ x.exponent ≠ -1074 then value - 1 else value - 2
  let above := value + 2
  let exponent := x.exponent - 2
  let scale := Nat.pow 2 exponent.toNat * Nat.pow 10 (-grid).toNat
  let unit := Nat.pow 2 (-exponent).toNat * Nat.pow 10 grid.toNat
  let inside (multiple : Nat) : Bool :=
    if x.mantissa % 2 = 0 then below * scale ≤ multiple * unit && multiple * unit ≤ above * scale
    else below * scale < multiple * unit && multiple * unit < above * scale
  let floor := value * scale / unit
  let down := value * scale - floor * unit
  let up := (floor + 1) * unit - value * scale
  if inside floor && (down < up || !inside (floor + 1)) then some floor
  else if inside (floor + 1) then some (floor + 1)
  else none

/-- The digits of the shortest decimal and the power of ten that they are multiplied by. -/
def shortest (x : Dyadic) : Nat × Int :=
  ((List.range 660).findSome? fun (step : Nat) =>
    let grid : Int := 309 - step
    (x.nearest? grid).map fun multiple => (multiple, grid)).getD (0, 0)

end Dyadic

/-- The text of `significand * 10 ^ exponent` without an exponent. -/
def positional (significand : Nat) (exponent : Int) : String :=
  let digits := Nat.toDigits 10 significand
  let zeros (count : Nat) := List.replicate count '0'
  let places := (-exponent).toNat
  String.ofList <|
    if places = 0 then digits ++ zeros exponent.toNat
    else if places < digits.length then
      digits.take (digits.length - places) ++ '.' :: digits.drop (digits.length - places)
    else '0' :: '.' :: zeros (places - digits.length) ++ digits

/-- The shortest text that reads back, without an exponent. -/
def render (x : Float) : String :=
  if x.isNaN then "NaN"
  else
    let value := Dyadic.ofFloat x
    let size :=
      if x.isInf then "inf"
      else if value.mantissa = 0 then "0"
      else positional value.shortest.1 value.shortest.2
    if value.negative then "-" ++ size else size

end SoftRules.Number
