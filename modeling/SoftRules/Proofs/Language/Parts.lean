import SoftRules.Language.Component

/-!
The tree of components: what a component is put together of, and what lies within it at any depth.
-/

set_option autoImplicit false

namespace SoftRules.Component

/-- The term of an optional bound. -/
def ofGuard (guard : Option Guard) : List Component :=
  guard.toList.map fun guard => term guard.term

/-- The components that a component is put together of, from left to right. -/
def parts : Component → List Component
  | statement (.rule content) => [rule content]
  | statement (.weakConstraint content) => [weakConstraint content]
  | statement (.directive content) => [directive content]
  | rule content => head content.head :: content.body.map bodyElement
  | weakConstraint content =>
      content.body.map bodyElement ++ term content.weight :: term content.priority ::
        content.terms.map term
  | directive _ => []
  | head (.literal content) => [literal content]
  | head (.aggregate content) => [aggregate content]
  | head (.theory content) => [theoryAtom content]
  | bodyElement (.literal content) => [literal content]
  | bodyElement (.conditional content) => [conditional content]
  | bodyElement (.theory content) => [theoryAtom content]
  | theoryAtom content =>
      content.arguments.map term ++ content.elements.map element ++ ofGuard content.guard
  | literal content => [atom content.atom]
  | conditional content => literal content.literal :: content.condition.map literal
  | atom (.predicate content _) => [term content]
  | atom (.boolean _ _) => []
  | atom (.comparison left _ right _) => [term left, term right]
  | atom (.aggregate content) => [aggregate content]
  | atom (.bodyAggregate content) => [bodyAggregate content]
  | aggregate content =>
      ofGuard content.left ++ content.elements.map conditional ++ ofGuard content.right
  | bodyAggregate content =>
      ofGuard content.left ++ content.elements.map element ++ ofGuard content.right
  | element content => content.terms.map term ++ content.condition.map literal
  | term (.var x) => [var x]
  | term (.symbol _ _) => []
  | term (.function _ arguments _) => arguments.map term
  | term (.operation _ operands _) => operands.map term
  | var _ => []

/-- The first component is the second one or a descendant of it. -/
inductive Within : Component → Component → Prop
  | refl (component : Component) : Within component component
  | part {inner part whole : Component} (isPart : part ∈ whole.parts) (below : Within inner part) :
      Within inner whole

/-- What holds of a component and of everything within its parts holds of everything within it. -/
theorem forall_within {good : Component → Prop} {whole : Component} (isGood : good whole)
    (parts : ∀ part ∈ whole.parts, ∀ inner, inner.Within part → good inner) :
    ∀ inner, inner.Within whole → good inner := by
  intro inner below
  cases below with
  | refl => exact isGood
  | part isPart below => exact parts _ isPart inner below

/-- The ranges in the first component end before those in the second one start. -/
def Before (first second : Component) : Prop :=
  ∀ earlier later left right, Within earlier first → Within later second →
    earlier.origin = some left → later.origin = some right → left.stop ≤ right.start

end SoftRules.Component
