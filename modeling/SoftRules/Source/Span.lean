/-!
Where a component of a program was read. Components that were built by hand or by an encoding
have no span, so an origin is optional throughout.
-/

set_option autoImplicit false

namespace SoftRules

/-- A half-open range of byte offsets into a source text. -/
structure Span where
  start : Nat
  stop : Nat
  deriving DecidableEq, Repr

abbrev Origin := Option Span

/-- Components that remember where they were read. -/
class Located (Component : Type) where
  origin : Component → Origin
  relocate : Origin → Component → Component

end SoftRules
