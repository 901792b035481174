import SoftRules.Language.Literal
import SoftRules.Text.Blank

/-!
Statements and programs. Annotations such as weights, evidence and observations are theory atoms
in the head or body of a rule.
-/

set_option autoImplicit false

namespace SoftRules

/-- An annotation `&name(arguments) { elements } relation term`. -/
structure TheoryAtom where
  name : String
  arguments : List Term := []
  elements : List (Element Literal) := []
  guard : Option Guard := none
  origin : Origin := none

inductive Head where
  | literal (content : Literal)
  | aggregate (content : Aggregate Literal)
  | theory (content : TheoryAtom)

inductive BodyElement where
  | literal (content : Literal)
  | conditional (content : Conditional Literal)
  | theory (content : TheoryAtom)

structure Rule where
  head : Head
  body : List BodyElement := []
  origin : Origin := none

/-- A penalty `weight` at level `priority`, charged once for each distinct tuple of `terms` for
which the body holds. -/
structure WeakConstraint where
  body : List BodyElement
  weight : Term
  priority : Term
  terms : List Term := []
  origin : Origin := none

/-- A solver directive, kept as the text in front of its final period. -/
structure Directive where
  text : String
  origin : Origin := none

inductive Statement where
  | rule (content : Rule)
  | weakConstraint (content : WeakConstraint)
  | directive (content : Directive)

abbrev Program := List Statement

instance : Located TheoryAtom where
  origin atom := atom.origin
  relocate origin atom := { atom with origin }

instance : Located Rule where
  origin rule := rule.origin
  relocate origin rule := { rule with origin }

instance : Located WeakConstraint where
  origin constraint := constraint.origin
  relocate origin constraint := { constraint with origin }

instance : Located Directive where
  origin directive := directive.origin
  relocate origin directive := { directive with origin }

namespace Head

def origin : Head → Origin
  | literal content => content.origin
  | aggregate content => content.origin
  | theory content => content.origin

def relocate (origin : Origin) : Head → Head
  | literal content => literal { content with origin }
  | aggregate content => aggregate { content with origin }
  | theory content => theory { content with origin }

instance : Located Head := ⟨Head.origin, Head.relocate⟩

/-- Whether the head is `#false`, whatever its sign. -/
def isFalse : Head → Bool
  | literal content => content.atom.isFalse
  | _ => false

def isTheory : Head → Bool
  | theory _ => true
  | _ => false

end Head

namespace BodyElement

def origin : BodyElement → Origin
  | literal content => content.origin
  | conditional content => content.origin
  | theory content => content.origin

def relocate (origin : Origin) : BodyElement → BodyElement
  | literal content => literal { content with origin }
  | conditional content => conditional { content with origin }
  | theory content => theory { content with origin }

instance : Located BodyElement := ⟨BodyElement.origin, BodyElement.relocate⟩

def hasCondition : BodyElement → Bool
  | conditional content => !content.condition.isEmpty
  | _ => false

/-- The variables of a body element, with repetitions. Those of theory atoms do not count. -/
def vars : BodyElement → List Variable
  | literal content => content.vars
  | conditional content => content.vars
  | theory _ => []

end BodyElement

/-- The rule that forbids `body`. -/
def Rule.constraint (body : List BodyElement) (origin : Origin := none) : Rule :=
  { head := .literal (.boolean false), body, origin }

/-- Blanks around the text do not count. -/
def Directive.ofText (text : List Char) : Directive :=
  { text := String.ofList (Text.trim text) }

namespace Statement

def origin : Statement → Origin
  | rule content => content.origin
  | weakConstraint content => content.origin
  | directive content => content.origin

def relocate (origin : Origin) : Statement → Statement
  | rule content => rule { content with origin }
  | weakConstraint content => weakConstraint { content with origin }
  | directive content => directive { content with origin }

instance : Located Statement := ⟨Statement.origin, Statement.relocate⟩

def isRule : Statement → Bool
  | rule _ => true
  | _ => false

end Statement

end SoftRules
