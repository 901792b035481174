import SoftRules.Language.Kind
import SoftRules.Language.Printer
import SoftRules.Language.Visitor

/-!
The components that a traversal meets, and traversals that watch them go by.
-/

set_option autoImplicit false

namespace SoftRules

inductive Component where
  | statement (content : Statement)
  | rule (content : Rule)
  | weakConstraint (content : WeakConstraint)
  | directive (content : Directive)
  | head (content : Head)
  | bodyElement (content : BodyElement)
  | theoryAtom (content : TheoryAtom)
  | literal (content : Literal)
  | conditional (content : Conditional Literal)
  | atom (content : Atom Literal)
  | aggregate (content : Aggregate Literal)
  | bodyAggregate (content : BodyAggregate Literal)
  | element (content : Element Literal)
  | term (content : Term)
  | var (content : Variable)

namespace Component

/-- Elements of body aggregates have no kind. -/
def kind? : Component → Option Kind
  | statement content => some content.kind
  | rule _ => some .rule
  | weakConstraint _ => some .weakConstraint
  | directive _ => some .directive
  | head content => some content.kind
  | bodyElement content => some content.kind
  | theoryAtom _ => some .theoryAtom
  | literal _ => some .literal
  | conditional _ => some .conditional
  | atom content => some content.kind
  | aggregate _ => some .aggregate
  | bodyAggregate _ => some .bodyAggregate
  | element _ => none
  | term content => some content.kind
  | var _ => some .var

/-- Elements of body aggregates have no origin. -/
def origin : Component → Origin
  | statement content => content.origin
  | rule content => content.origin
  | weakConstraint content => content.origin
  | directive content => content.origin
  | head content => content.origin
  | bodyElement content => content.origin
  | theoryAtom content => content.origin
  | literal content => content.origin
  | conditional content => content.origin
  | atom content => content.origin
  | aggregate content => content.origin
  | bodyAggregate content => content.origin
  | element _ => none
  | term content => content.origin
  | var content => content.origin

def render : Component → String
  | statement content => content.render
  | rule content => content.render
  | weakConstraint content => content.render
  | directive content => content.render
  | head content => content.render
  | bodyElement content => content.render
  | theoryAtom content => content.render
  | literal content => content.render
  | conditional content => content.render
  | atom content => content.render
  | aggregate content => content.render
  | bodyAggregate content => content.render
  | element content => content.render
  | term content => content.render
  | var content => content.name

end Component

/-- The visitor that replaces variables and leaves everything else as it is. -/
def Visitor.replacing {m : Type → Type} (replace : Variable → m Variable) : Visitor m where
  var x _ := replace x

/-- The visitor that observes every component before it visits the children, and replaces
variables. -/
def Visitor.watching {m : Type → Type} [Monad m] (observe : Component → m Unit)
    (replace : Variable → m Variable) : Visitor m where
  statement content walk := do observe (.statement content); walk
  rule content walk := do observe (.rule content); walk
  weakConstraint content walk := do observe (.weakConstraint content); walk
  directive content walk := do observe (.directive content); walk
  head content walk := do observe (.head content); walk
  bodyElement content walk := do observe (.bodyElement content); walk
  theoryAtom content walk := do observe (.theoryAtom content); walk
  literal content walk := do observe (.literal content); walk
  conditional content walk := do observe (.conditional content); walk
  atom content walk := do observe (.atom content); walk
  aggregate content walk := do observe (.aggregate content); walk
  bodyAggregate content walk := do observe (.bodyAggregate content); walk
  element content walk := do observe (.element content); walk
  term content walk := do observe (.term content); walk
  var content _ := do observe (.var content); replace content

/-- The statement with every variable replaced by its image. -/
def Statement.mapVariables (replace : Variable → Variable) (statement : Statement) : Statement :=
  statement.visit (m := Id) (Visitor.replacing replace)

/-- The components of a statement in the order in which they are visited, together with the result
of replacing its variables. A variable that cannot be replaced ends the visit; the components seen
up to it remain on record. -/
def Statement.trace {ε : Type} (replace : Variable → Except ε Variable) (statement : Statement) :
    Except ε Statement × List Component :=
  let observe (component : Component) : ExceptT ε (StateM (List Component)) Unit :=
    modify (component :: ·)
  let visitor := Visitor.watching observe fun x => liftExcept (replace x)
  let (result, seen) := (statement.visit visitor).run []
  (result, seen.reverse)
where
  liftExcept {α : Type} : Except ε α → ExceptT ε (StateM (List Component)) α
    | .ok value => pure value
    | .error fault => throw fault

end SoftRules
