import SoftRules.Language.Component
import SoftRules.Proofs.Language.Substitution
import Mathlib.Tactic.Simps.Basic

/-!
The order in which a traversal meets the components of a statement, as a list.

A traversal that observes every component and replaces variables by their images does two separate
things, in any monad: it meets the components of the tour one after the other, and it returns the
statement with its variables replaced (`Statement.visit_meeting`). What a hook does on the way has
no influence on the result, and what is returned has none on what is met.
-/

set_option autoImplicit false

namespace SoftRules

mutual

/-- The components of a term, each before its parts. -/
def Term.tour : Term → List Component
  | .var x => [.term (.var x), .var x]
  | .symbol value origin => [.term (.symbol value origin)]
  | .function name arguments origin =>
      .term (.function name arguments origin) :: Term.tourAll arguments
  | .operation operator operands origin =>
      .term (.operation operator operands origin) :: Term.tourAll operands

def Term.tourAll : List Term → List Component
  | [] => []
  | term :: terms => term.tour ++ Term.tourAll terms

end

def Guard.tour : Option Guard → List Component
  | none => []
  | some guard => guard.term.tour

mutual

def Literal.tour : Literal → List Component
  | ⟨sign, atom, origin⟩ => .literal ⟨sign, atom, origin⟩ :: atom.tour

def Literal.tourAll : List Literal → List Component
  | [] => []
  | literal :: literals => literal.tour ++ Literal.tourAll literals

def Atom.tour : Atom Literal → List Component
  | .predicate term origin => .atom (.predicate term origin) :: term.tour
  | .boolean value origin => [.atom (.boolean value origin)]
  | .comparison left relation right origin =>
      .atom (.comparison left relation right origin) :: (left.tour ++ right.tour)
  | .aggregate content => .atom (.aggregate content) :: content.tour
  | .bodyAggregate content => .atom (.bodyAggregate content) :: content.tour

/-- The right bound comes last, as it is written. -/
def Aggregate.tour : Aggregate Literal → List Component
  | ⟨left, elements, right, origin⟩ =>
      .aggregate ⟨left, elements, right, origin⟩ ::
        (Guard.tour left ++ Conditional.tourAll elements ++ Guard.tour right)

def BodyAggregate.tour : BodyAggregate Literal → List Component
  | ⟨function, left, elements, right, origin⟩ =>
      .bodyAggregate ⟨function, left, elements, right, origin⟩ ::
        (Guard.tour left ++ Element.tourAll elements ++ Guard.tour right)

def Conditional.tour : Conditional Literal → List Component
  | ⟨literal, condition, origin⟩ =>
      .conditional ⟨literal, condition, origin⟩ :: (literal.tour ++ Literal.tourAll condition)

def Conditional.tourAll : List (Conditional Literal) → List Component
  | [] => []
  | element :: elements => element.tour ++ Conditional.tourAll elements

def Element.tour : Element Literal → List Component
  | ⟨terms, condition⟩ =>
      .element ⟨terms, condition⟩ :: (Term.tourAll terms ++ Literal.tourAll condition)

def Element.tourAll : List (Element Literal) → List Component
  | [] => []
  | element :: elements => element.tour ++ Element.tourAll elements

end

/-- The elements of a theory atom are not met themselves, only their parts are. -/
def TheoryAtom.tour (atom : TheoryAtom) : List Component :=
  .theoryAtom atom ::
    (Term.tourAll atom.arguments ++
      atom.elements.flatMap (fun element =>
        Term.tourAll element.terms ++ Literal.tourAll element.condition) ++
      Guard.tour atom.guard)

def Head.tour (head : Head) : List Component :=
  .head head ::
    match head with
    | .literal content => content.tour
    | .aggregate content => content.tour
    | .theory content => content.tour

def BodyElement.tour (element : BodyElement) : List Component :=
  .bodyElement element ::
    match element with
    | .literal content => content.tour
    | .conditional content => content.tour
    | .theory content => content.tour

def Rule.tour (rule : Rule) : List Component :=
  .rule rule :: (rule.head.tour ++ rule.body.flatMap BodyElement.tour)

/-- The body of a weak constraint comes after its weight, priority and terms. -/
def WeakConstraint.tour (constraint : WeakConstraint) : List Component :=
  .weakConstraint constraint ::
    (constraint.weight.tour ++ constraint.priority.tour ++ Term.tourAll constraint.terms ++
      constraint.body.flatMap BodyElement.tour)

def Statement.tour (statement : Statement) : List Component :=
  .statement statement ::
    match statement with
    | .rule content => content.tour
    | .weakConstraint content => content.tour
    | .directive content => [.directive content]

def Component.var? : Component → Option Variable
  | .var x => some x
  | _ => none

section Watching

variable {m : Type → Type} [Monad m] (observe : Component → m Unit) (check : Variable → m Unit)
  (replace : Variable → Variable)

/-- What happens when a component is met. Variables are checked before they are replaced. -/
def Component.meet (component : Component) : m Unit := do
  observe component
  if let some x := component.var? then check x

/-- The visitor that meets every component and replaces variables by their images. -/
@[simps!]
def Visitor.meeting : Visitor m :=
  .watching observe fun x => do check x; return replace x

variable [LawfulMonad m]

mutual

theorem Term.visit_meeting : (term : Term) →
    term.visit (.meeting observe check replace) =
      do term.tour.forM (Component.meet observe check); return term.substitute replace
  | .var x => by
      simp [Term.visit, Term.tour, Component.meet, Component.var?, Term.substitute]
  | .symbol _ _ => by
      simp [Term.visit, Term.tour, Component.meet, Component.var?, Term.substitute]
  | .function _ arguments _ => by
      simp [Term.visit, Term.tour, Component.meet, Component.var?, Term.substitute,
        Term.visitAll_meeting arguments]
  | .operation _ operands _ => by
      simp [Term.visit, Term.tour, Component.meet, Component.var?, Term.substitute,
        Term.visitAll_meeting operands]

theorem Term.visitAll_meeting : (terms : List Term) →
    Term.visitAll (.meeting observe check replace) terms =
      do (Term.tourAll terms).forM (Component.meet observe check)
         return Term.substituteAll replace terms
  | [] => by simp [Term.visitAll, Term.tourAll, Term.substituteAll]
  | term :: terms => by
      simp [Term.visitAll, Term.tourAll, Term.substituteAll, Term.visit_meeting term,
        Term.visitAll_meeting terms]

end

theorem Guard.visit_meeting (guard : Option Guard) :
    Guard.visit (.meeting observe check replace) guard =
      do (Guard.tour guard).forM (Component.meet observe check)
         return guard.map (Guard.substitute replace) := by
  cases guard with
  | none => simp [Guard.visit, Guard.tour]
  | some guard => simp [Guard.visit, Guard.tour, Term.visit_meeting, Guard.substitute]

mutual

theorem Literal.visit_meeting : (literal : Literal) →
    literal.visit (.meeting observe check replace) =
      do literal.tour.forM (Component.meet observe check); return literal.substitute replace
  | ⟨_, atom, _⟩ => by
      simp [Literal.visit, Literal.tour, Component.meet, Component.var?, Literal.substitute,
        Atom.visit_meeting atom]

theorem Literal.visitAll_meeting : (literals : List Literal) →
    Literal.visitAll (.meeting observe check replace) literals =
      do (Literal.tourAll literals).forM (Component.meet observe check)
         return Literal.substituteAll replace literals
  | [] => by simp [Literal.visitAll, Literal.tourAll, Literal.substituteAll]
  | literal :: literals => by
      simp [Literal.visitAll, Literal.tourAll, Literal.substituteAll, Literal.visit_meeting literal,
        Literal.visitAll_meeting literals]

theorem Atom.visit_meeting : (atom : Atom Literal) →
    atom.visit (.meeting observe check replace) =
      do atom.tour.forM (Component.meet observe check); return atom.substitute replace
  | .predicate _ _ => by
      simp [Atom.visit, Atom.tour, Component.meet, Component.var?, Atom.substitute,
        Term.visit_meeting]
  | .boolean _ _ => by
      simp [Atom.visit, Atom.tour, Component.meet, Component.var?, Atom.substitute]
  | .comparison _ _ _ _ => by
      simp [Atom.visit, Atom.tour, Component.meet, Component.var?, Atom.substitute,
        Term.visit_meeting]
  | .aggregate content => by
      simp [Atom.visit, Atom.tour, Component.meet, Component.var?, Atom.substitute,
        Aggregate.visit_meeting content]
  | .bodyAggregate content => by
      simp [Atom.visit, Atom.tour, Component.meet, Component.var?, Atom.substitute,
        BodyAggregate.visit_meeting content]

theorem Aggregate.visit_meeting : (aggregate : Aggregate Literal) →
    aggregate.visit (.meeting observe check replace) =
      do aggregate.tour.forM (Component.meet observe check); return aggregate.substitute replace
  | ⟨_, elements, _, _⟩ => by
      simp [Aggregate.visit, Aggregate.tour, Component.meet, Component.var?,
        Aggregate.substitute, Guard.visit_meeting, Conditional.visitAll_meeting elements]

theorem BodyAggregate.visit_meeting : (aggregate : BodyAggregate Literal) →
    aggregate.visit (.meeting observe check replace) =
      do aggregate.tour.forM (Component.meet observe check); return aggregate.substitute replace
  | ⟨_, _, elements, _, _⟩ => by
      simp [BodyAggregate.visit, BodyAggregate.tour, Component.meet, Component.var?,
        BodyAggregate.substitute, Guard.visit_meeting, Element.visitAll_meeting elements]

theorem Conditional.visit_meeting : (element : Conditional Literal) →
    element.visit (.meeting observe check replace) =
      do element.tour.forM (Component.meet observe check); return element.substitute replace
  | ⟨literal, condition, _⟩ => by
      simp [Conditional.visit, Conditional.tour, Component.meet, Component.var?,
        Conditional.substitute, Literal.visit_meeting literal, Literal.visitAll_meeting condition]

theorem Conditional.visitAll_meeting : (elements : List (Conditional Literal)) →
    Conditional.visitAll (.meeting observe check replace) elements =
      do (Conditional.tourAll elements).forM (Component.meet observe check)
         return Conditional.substituteAll replace elements
  | [] => by simp [Conditional.visitAll, Conditional.tourAll, Conditional.substituteAll]
  | element :: elements => by
      simp [Conditional.visitAll, Conditional.tourAll, Conditional.substituteAll,
        Conditional.visit_meeting element, Conditional.visitAll_meeting elements]

theorem Element.visit_meeting : (element : Element Literal) →
    element.visit (.meeting observe check replace) =
      do element.tour.forM (Component.meet observe check); return element.substitute replace
  | ⟨terms, condition⟩ => by
      simp [Element.visit, Element.tour, Component.meet, Component.var?, Element.substitute,
        Term.visitAll_meeting observe check replace terms, Literal.visitAll_meeting condition]

theorem Element.visitAll_meeting : (elements : List (Element Literal)) →
    Element.visitAll (.meeting observe check replace) elements =
      do (Element.tourAll elements).forM (Component.meet observe check)
         return Element.substituteAll replace elements
  | [] => by simp [Element.visitAll, Element.tourAll, Element.substituteAll]
  | element :: elements => by
      simp [Element.visitAll, Element.tourAll, Element.substituteAll, Element.visit_meeting element,
        Element.visitAll_meeting elements]

end

theorem TheoryAtom.visitElements_meeting (elements : List (Element Literal)) :
    TheoryAtom.visitElements (.meeting observe check replace) elements =
      do (elements.flatMap fun element =>
           Term.tourAll element.terms ++ Literal.tourAll element.condition).forM
             (Component.meet observe check)
         return Element.substituteAll replace elements := by
  induction elements with
  | nil => simp [TheoryAtom.visitElements, Element.substituteAll]
  | cons element elements inductionHypothesis =>
      obtain ⟨terms, condition⟩ := element
      simp [TheoryAtom.visitElements, Element.substituteAll, Element.substitute,
        Term.visitAll_meeting, Literal.visitAll_meeting, inductionHypothesis]

theorem TheoryAtom.visit_meeting (atom : TheoryAtom) :
    atom.visit (.meeting observe check replace) =
      do atom.tour.forM (Component.meet observe check); return atom.substitute replace := by
  simp [TheoryAtom.visit, TheoryAtom.tour, Component.meet, Component.var?,
    TheoryAtom.substitute, Term.visitAll_meeting, TheoryAtom.visitElements_meeting,
    Guard.visit_meeting]

theorem Head.visit_meeting (head : Head) :
    head.visit (.meeting observe check replace) =
      do head.tour.forM (Component.meet observe check); return head.substitute replace := by
  cases head <;>
    simp [Head.visit, Head.tour, Component.meet, Component.var?, Head.substitute,
      Literal.visit_meeting, Aggregate.visit_meeting, TheoryAtom.visit_meeting]

theorem BodyElement.visit_meeting (element : BodyElement) :
    element.visit (.meeting observe check replace) =
      do element.tour.forM (Component.meet observe check); return element.substitute replace := by
  cases element <;>
    simp [BodyElement.visit, BodyElement.tour, Component.meet, Component.var?,
      BodyElement.substitute, Literal.visit_meeting, Conditional.visit_meeting,
      TheoryAtom.visit_meeting]

theorem BodyElement.visitAll_meeting (body : List BodyElement) :
    BodyElement.visitAll (.meeting observe check replace) body =
      do (body.flatMap BodyElement.tour).forM (Component.meet observe check)
         return body.map (BodyElement.substitute replace) := by
  induction body with
  | nil => simp [BodyElement.visitAll]
  | cons element body inductionHypothesis =>
      simp [BodyElement.visitAll, BodyElement.visit_meeting, inductionHypothesis]

/-- Visiting a statement comes down to meeting the components of its tour and replacing its
variables. -/
theorem Statement.visit_meeting (statement : Statement) :
    statement.visit (.meeting observe check replace) =
      do statement.tour.forM (Component.meet observe check)
         return statement.substitute replace := by
  cases statement <;>
    simp [Statement.visit, Statement.tour, Component.meet, Component.var?,
      Statement.substitute, Rule.visit, Rule.tour, Rule.substitute, WeakConstraint.visit,
      WeakConstraint.tour, WeakConstraint.substitute, Directive.visit, Head.visit_meeting,
      BodyElement.visitAll_meeting, Term.visit_meeting, Term.visitAll_meeting]

end Watching

end SoftRules
