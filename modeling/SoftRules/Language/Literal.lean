import SoftRules.Language.Term

/-!
Atoms and literals. Aggregates hold literals and are atoms themselves, so the two depend on each
other: the types below take the type of literals as a parameter, and `Literal` ties the knot.
-/

set_option autoImplicit false

namespace SoftRules

/-- A bound of an aggregate or of a theory atom. -/
structure Guard where
  relation : Relation
  term : Term

/-- A literal together with the condition under which it counts. -/
structure Conditional (Lit : Type) where
  literal : Lit
  condition : List Lit := []
  origin : Origin := none

/-- A set of conditional literals with optional bounds on how many of them hold. -/
structure Aggregate (Lit : Type) where
  left : Option Guard := none
  elements : List (Conditional Lit)
  right : Option Guard := none
  origin : Origin := none

/-- A tuple of terms together with the condition under which it counts. -/
structure Element (Lit : Type) where
  terms : List Term
  condition : List Lit := []

/-- A function applied to a set of tuples, with optional bounds on its value. -/
structure BodyAggregate (Lit : Type) where
  function : AggregateFunction
  left : Option Guard := none
  elements : List (Element Lit)
  right : Option Guard := none
  origin : Origin := none

inductive Atom (Lit : Type) where
  | predicate (term : Term) (origin : Origin := none)
  | boolean (value : Bool) (origin : Origin := none)
  | comparison (left : Term) (relation : Relation) (right : Term) (origin : Origin := none)
  | aggregate (content : Aggregate Lit)
  | bodyAggregate (content : BodyAggregate Lit)

structure Literal where
  sign : Sign := .plain
  atom : Atom Literal
  origin : Origin := none

instance {Lit : Type} : Located (Conditional Lit) where
  origin element := element.origin
  relocate origin element := { element with origin }

instance {Lit : Type} : Located (Aggregate Lit) where
  origin aggregate := aggregate.origin
  relocate origin aggregate := { aggregate with origin }

instance {Lit : Type} : Located (BodyAggregate Lit) where
  origin aggregate := aggregate.origin
  relocate origin aggregate := { aggregate with origin }

instance : Located Literal where
  origin literal := literal.origin
  relocate origin literal := { literal with origin }

namespace Aggregate

variable {Lit : Type}

/-- The aggregate that leaves open which of its elements hold. -/
def choice (elements : List (Conditional Lit)) (origin : Origin := none) : Aggregate Lit :=
  { elements, origin }

def isGuarded (aggregate : Aggregate Lit) : Bool :=
  aggregate.left.isSome || aggregate.right.isSome

end Aggregate

namespace Atom

variable {Lit : Type}

def origin : Atom Lit → Origin
  | predicate _ origin => origin
  | boolean _ origin => origin
  | comparison _ _ _ origin => origin
  | aggregate content => content.origin
  | bodyAggregate content => content.origin

def relocate (origin : Origin) : Atom Lit → Atom Lit
  | predicate term _ => predicate term origin
  | boolean value _ => boolean value origin
  | comparison left relation right _ => comparison left relation right origin
  | aggregate content => aggregate { content with origin }
  | bodyAggregate content => bodyAggregate { content with origin }

instance : Located (Atom Lit) := ⟨Atom.origin, Atom.relocate⟩

def isFalse : Atom Lit → Bool
  | boolean value _ => !value
  | _ => false

end Atom

namespace Literal

def boolean (value : Bool) : Literal := { atom := .boolean value }

def positive (atom : Atom Literal) (origin : Origin := none) : Literal := { atom, origin }

def negative (atom : Atom Literal) (origin : Origin := none) : Literal :=
  { sign := .negated, atom, origin }

end Literal

namespace Guard

def vars (guard : Guard) : List Variable := guard.term.vars

end Guard

/-- The variables of two bounds, those of the left one first. -/
def guardVariables (left right : Option Guard) : List Variable :=
  (left.map Guard.vars).getD [] ++ (right.map Guard.vars).getD []

mutual

/-- The variables of a literal, with repetitions. The bounds of an aggregate come before its
elements. -/
def Literal.vars : Literal → List Variable
  | ⟨_, atom, _⟩ => atom.vars

def Literal.varsOf : List Literal → List Variable
  | [] => []
  | literal :: literals => literal.vars ++ Literal.varsOf literals

def Atom.vars : Atom Literal → List Variable
  | .predicate term _ => term.vars
  | .boolean _ _ => []
  | .comparison left _ right _ => left.vars ++ right.vars
  | .aggregate content => content.vars
  | .bodyAggregate content => content.vars

def Aggregate.vars : Aggregate Literal → List Variable
  | ⟨left, elements, right, _⟩ => guardVariables left right ++ Conditional.varsOf elements

def BodyAggregate.vars : BodyAggregate Literal → List Variable
  | ⟨_, left, elements, right, _⟩ => guardVariables left right ++ Element.varsOf elements

def Conditional.vars : Conditional Literal → List Variable
  | ⟨literal, condition, _⟩ => literal.vars ++ Literal.varsOf condition

def Conditional.varsOf : List (Conditional Literal) → List Variable
  | [] => []
  | element :: elements => element.vars ++ Conditional.varsOf elements

def Element.vars : Element Literal → List Variable
  | ⟨terms, condition⟩ => Term.varsOf terms ++ Literal.varsOf condition

def Element.varsOf : List (Element Literal) → List Variable
  | [] => []
  | element :: elements => element.vars ++ Element.varsOf elements

end

end SoftRules
