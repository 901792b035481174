import SoftRules.Language.Statement

/-!
A traversal that rebuilds a statement component by component in an arbitrary monad.

A `Visitor` has one hook for each sort of component. A hook is given the component and the action
that visits its children and puts it together again; a hook that does nothing special runs that
action. Children are visited from left to right in the order in which they are written, except
that a weak constraint visits its weight, priority and terms before its body.
-/

set_option autoImplicit false

namespace SoftRules

structure Visitor (m : Type → Type) where
  statement : Statement → m Statement → m Statement := fun _ walk => walk
  rule : Rule → m Rule → m Rule := fun _ walk => walk
  weakConstraint : WeakConstraint → m WeakConstraint → m WeakConstraint := fun _ walk => walk
  directive : Directive → m Directive → m Directive := fun _ walk => walk
  head : Head → m Head → m Head := fun _ walk => walk
  bodyElement : BodyElement → m BodyElement → m BodyElement := fun _ walk => walk
  theoryAtom : TheoryAtom → m TheoryAtom → m TheoryAtom := fun _ walk => walk
  literal : Literal → m Literal → m Literal := fun _ walk => walk
  conditional : Conditional Literal → m (Conditional Literal) → m (Conditional Literal) :=
    fun _ walk => walk
  atom : Atom Literal → m (Atom Literal) → m (Atom Literal) := fun _ walk => walk
  aggregate : Aggregate Literal → m (Aggregate Literal) → m (Aggregate Literal) :=
    fun _ walk => walk
  bodyAggregate : BodyAggregate Literal → m (BodyAggregate Literal) → m (BodyAggregate Literal) :=
    fun _ walk => walk
  element : Element Literal → m (Element Literal) → m (Element Literal) := fun _ walk => walk
  term : Term → m Term → m Term := fun _ walk => walk
  var : Variable → m Variable → m Variable := fun _ walk => walk

section

variable {m : Type → Type} [Monad m] (v : Visitor m)

mutual

def Term.visit : Term → m Term
  | .var x => v.term (.var x) do return .var (← v.var x (pure x))
  | .symbol value origin => v.term (.symbol value origin) (pure (.symbol value origin))
  | .function name arguments origin =>
      v.term (.function name arguments origin) do
        return .function name (← Term.visitAll arguments) origin
  | .operation operator operands origin =>
      v.term (.operation operator operands origin) do
        return .operation operator (← Term.visitAll operands) origin

def Term.visitAll : List Term → m (List Term)
  | [] => pure []
  | term :: terms => do
      let term ← term.visit
      let terms ← Term.visitAll terms
      return term :: terms

end

def Guard.visit : Option Guard → m (Option Guard)
  | none => pure none
  | some guard => do return some { guard with term := ← guard.term.visit v }

mutual

def Literal.visit : Literal → m Literal
  | ⟨sign, atom, origin⟩ => v.literal ⟨sign, atom, origin⟩ do
      return ⟨sign, ← atom.visit, origin⟩

def Literal.visitAll : List Literal → m (List Literal)
  | [] => pure []
  | literal :: literals => do
      let literal ← literal.visit
      let literals ← Literal.visitAll literals
      return literal :: literals

def Atom.visit : Atom Literal → m (Atom Literal)
  | .predicate term origin => v.atom (.predicate term origin) do
      return .predicate (← term.visit v) origin
  | .boolean value origin => v.atom (.boolean value origin) (pure (.boolean value origin))
  | .comparison left relation right origin => v.atom (.comparison left relation right origin) do
      let left ← left.visit v
      let right ← right.visit v
      return .comparison left relation right origin
  | .aggregate content => v.atom (.aggregate content) do return .aggregate (← content.visit)
  | .bodyAggregate content => v.atom (.bodyAggregate content) do
      return .bodyAggregate (← content.visit)

def Aggregate.visit : Aggregate Literal → m (Aggregate Literal)
  | ⟨left, elements, right, origin⟩ => v.aggregate ⟨left, elements, right, origin⟩ do
      let left ← Guard.visit v left
      let elements ← Conditional.visitAll elements
      let right ← Guard.visit v right
      return ⟨left, elements, right, origin⟩

def BodyAggregate.visit : BodyAggregate Literal → m (BodyAggregate Literal)
  | ⟨function, left, elements, right, origin⟩ =>
    v.bodyAggregate ⟨function, left, elements, right, origin⟩ do
      let left ← Guard.visit v left
      let elements ← Element.visitAll elements
      let right ← Guard.visit v right
      return ⟨function, left, elements, right, origin⟩

def Conditional.visit : Conditional Literal → m (Conditional Literal)
  | ⟨literal, condition, origin⟩ => v.conditional ⟨literal, condition, origin⟩ do
      let literal ← literal.visit
      let condition ← Literal.visitAll condition
      return ⟨literal, condition, origin⟩

def Conditional.visitAll : List (Conditional Literal) → m (List (Conditional Literal))
  | [] => pure []
  | element :: elements => do
      let element ← element.visit
      let elements ← Conditional.visitAll elements
      return element :: elements

def Element.visit : Element Literal → m (Element Literal)
  | ⟨terms, condition⟩ => v.element ⟨terms, condition⟩ do
      let terms ← Term.visitAll v terms
      let condition ← Literal.visitAll condition
      return ⟨terms, condition⟩

def Element.visitAll : List (Element Literal) → m (List (Element Literal))
  | [] => pure []
  | element :: elements => do
      let element ← element.visit
      let elements ← Element.visitAll elements
      return element :: elements

end

/-- The elements of a theory atom have no hook of their own; only their parts are visited. -/
def TheoryAtom.visitElements : List (Element Literal) → m (List (Element Literal))
  | [] => pure []
  | element :: elements => do
      let terms ← Term.visitAll v element.terms
      let condition ← Literal.visitAll v element.condition
      let elements ← TheoryAtom.visitElements elements
      return ⟨terms, condition⟩ :: elements

def TheoryAtom.visit (atom : TheoryAtom) : m TheoryAtom :=
  v.theoryAtom atom do
    let arguments ← Term.visitAll v atom.arguments
    let elements ← TheoryAtom.visitElements v atom.elements
    let guard ← Guard.visit v atom.guard
    return { atom with arguments, elements, guard }

def Head.visit (head : Head) : m Head :=
  v.head head do
    match head with
    | .literal content => return .literal (← content.visit v)
    | .aggregate content => return .aggregate (← content.visit v)
    | .theory content => return .theory (← content.visit v)

def BodyElement.visit (element : BodyElement) : m BodyElement :=
  v.bodyElement element do
    match element with
    | .literal content => return .literal (← content.visit v)
    | .conditional content => return .conditional (← content.visit v)
    | .theory content => return .theory (← content.visit v)

def BodyElement.visitAll : List BodyElement → m (List BodyElement)
  | [] => pure []
  | element :: body => do
      let element ← element.visit v
      let body ← BodyElement.visitAll body
      return element :: body

def Rule.visit (rule : Rule) : m Rule :=
  v.rule rule do
    let head ← rule.head.visit v
    let body ← BodyElement.visitAll v rule.body
    return { rule with head, body }

def WeakConstraint.visit (constraint : WeakConstraint) : m WeakConstraint :=
  v.weakConstraint constraint do
    let weight ← constraint.weight.visit v
    let priority ← constraint.priority.visit v
    let terms ← Term.visitAll v constraint.terms
    let body ← BodyElement.visitAll v constraint.body
    return { constraint with weight, priority, terms, body }

def Directive.visit (directive : Directive) : m Directive :=
  v.directive directive (pure directive)

def Statement.visit (statement : Statement) : m Statement :=
  v.statement statement do
    match statement with
    | .rule content => return .rule (← content.visit v)
    | .weakConstraint content => return .weakConstraint (← content.visit v)
    | .directive content => return .directive (← content.visit v)

end

end SoftRules
