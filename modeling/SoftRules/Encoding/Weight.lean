import SoftRules.Encoding.Treatment
import SoftRules.Language.Printer
import SoftRules.Number.Decimal
import SoftRules.Number.Power
import SoftRules.Number.Shortest

/-!
Weights of soft rules. A weight is kept as it was computed and rounded only where it becomes a
term.
-/

set_option autoImplicit false

namespace SoftRules

/-- A weight scaled by a power of ten. -/
structure Weight where
  value : Float

namespace Weight

/-- The nearest integer, a half going away from zero, cut off at the range of 64 bits. -/
def toInteger (weight : Weight) : Int :=
  max Number.minInt64 (min Number.maxInt64 (Number.Dyadic.ofFloat weight.value).round)

def toTerm (weight : Weight) : Term := .number weight.toInteger

def render (weight : Weight) : String := toString weight.toInteger

/-- The floating point number that is nearest to the greatest integer of 64 bits. -/
def limit : Float := Number.ofInteger Number.maxInt64

/-- Scales by a power of ten. The result must be finite and round to at most the limit. -/
def scale? (raw : Float) (power : Int) : Option Weight :=
  let scaled := raw * Number.tenTo power
  if scaled.isFinite &&
      (Number.Dyadic.ofFloat scaled).roundAbs ≤ (Number.Dyadic.ofFloat limit).roundAbs then
    some ⟨scaled⟩
  else none

end Weight

/-- Why an annotation has no weight. -/
inductive WeightError where
  | notANumber (expression : String)
  | undefined (formula : WeightFormula) (value : String)
  deriving DecidableEq, Repr

namespace WeightError

def message : WeightError → String
  | notANumber expression => "invalid weight expression: `" ++ expression ++ "`"
  | undefined formula value =>
      "cannot compute weight of `&" ++ formula.name ++ "` for value " ++ value

def note : WeightError → String
  | notANumber _ => "weights must be integer or decimal literals, such as 2, -0.5 or 1e-3"
  | undefined _ _ =>
      "log requires a value greater than 0 and problog a value strictly between 0 and 1"

def code : WeightError → Nat
  | notANumber _ => 201
  | undefined _ _ => 202

end WeightError

namespace Weight

/-- The number that a term denotes: an integer, or a string that reads as a number. -/
def argumentValue (argument : Term) : Except WeightError Float :=
  match argument.symbol? with
  | some (.number value) => .ok (Number.ofInteger value)
  | some (.text value) =>
      match Number.read? value with
      | some value => .ok value
      | none => .error (.notANumber value)
  | none => .error (.notANumber argument.render)

/-- The scaled weight that an annotation gives to its rule. -/
def ofFormula (formula : WeightFormula) (argument : Term) (power : Int) :
    Except WeightError Weight := do
  let value ← argumentValue argument
  match formula.value? value >>= fun raw => scale? raw power with
  | some weight => .ok weight
  | none => .error (.undefined formula (Number.render value))

end Weight

end SoftRules
