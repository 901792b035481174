/-!
Options of the encoding.
-/

set_option autoImplicit false

namespace SoftRules

/-- The power of ten by which weights are scaled unless another one is asked for. -/
def defaultPower : Int := 5

structure Mode where
  /-- Rules without a weight are encoded as well. -/
  encodeHard : Bool := false
  /-- Violations are marked by atoms of their own. -/
  markViolations : Bool := false
  /-- Penalties of soft rules can be switched on and off by an atom. -/
  switchPenalties : Bool := false
  /-- Weights are multiplied by this power of ten before they are rounded. -/
  power : Int := defaultPower
  deriving DecidableEq, Repr

end SoftRules
