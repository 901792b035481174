import SoftRules.Language.Statement

/-!
Equality of components up to their origins: two components are the same if they differ at most in
where they were read.
-/

set_option autoImplicit false

namespace SoftRules

def Variable.same (x y : Variable) : Bool :=
  x.name == y.name

mutual

def Term.same : Term → Term → Bool
  | .var x, .var y => x.same y
  | .symbol value _, .symbol value' _ => value == value'
  | .function name arguments _, .function name' arguments' _ =>
      name == name' && Term.sameAll arguments arguments'
  | .operation operator operands _, .operation operator' operands' _ =>
      operator == operator' && Term.sameAll operands operands'
  | _, _ => false

def Term.sameAll : List Term → List Term → Bool
  | [], [] => true
  | term :: terms, term' :: terms' => term.same term' && Term.sameAll terms terms'
  | _, _ => false

end

def Guard.same (guard guard' : Guard) : Bool :=
  guard.relation == guard'.relation && guard.term.same guard'.term

def Guard.sameOption : Option Guard → Option Guard → Bool
  | none, none => true
  | some guard, some guard' => guard.same guard'
  | _, _ => false

mutual

def Literal.same : Literal → Literal → Bool
  | ⟨sign, atom, _⟩, ⟨sign', atom', _⟩ => sign == sign' && atom.same atom'

def Literal.sameAll : List Literal → List Literal → Bool
  | [], [] => true
  | literal :: literals, literal' :: literals' =>
      literal.same literal' && Literal.sameAll literals literals'
  | _, _ => false

def Atom.same : Atom Literal → Atom Literal → Bool
  | .predicate term _, .predicate term' _ => term.same term'
  | .boolean value _, .boolean value' _ => value == value'
  | .comparison left relation right _, .comparison left' relation' right' _ =>
      left.same left' && relation == relation' && right.same right'
  | .aggregate content, .aggregate content' => content.same content'
  | .bodyAggregate content, .bodyAggregate content' => content.same content'
  | _, _ => false

def Aggregate.same : Aggregate Literal → Aggregate Literal → Bool
  | ⟨left, elements, right, _⟩, ⟨left', elements', right', _⟩ =>
      Guard.sameOption left left' && Conditional.sameAll elements elements' &&
        Guard.sameOption right right'

def BodyAggregate.same : BodyAggregate Literal → BodyAggregate Literal → Bool
  | ⟨function, left, elements, right, _⟩, ⟨function', left', elements', right', _⟩ =>
      function == function' && Guard.sameOption left left' &&
        Element.sameAll elements elements' && Guard.sameOption right right'

def Conditional.same : Conditional Literal → Conditional Literal → Bool
  | ⟨literal, condition, _⟩, ⟨literal', condition', _⟩ =>
      literal.same literal' && Literal.sameAll condition condition'

def Conditional.sameAll : List (Conditional Literal) → List (Conditional Literal) → Bool
  | [], [] => true
  | element :: elements, element' :: elements' =>
      element.same element' && Conditional.sameAll elements elements'
  | _, _ => false

def Element.same : Element Literal → Element Literal → Bool
  | ⟨terms, condition⟩, ⟨terms', condition'⟩ =>
      Term.sameAll terms terms' && Literal.sameAll condition condition'

def Element.sameAll : List (Element Literal) → List (Element Literal) → Bool
  | [], [] => true
  | element :: elements, element' :: elements' =>
      element.same element' && Element.sameAll elements elements'
  | _, _ => false

end

def TheoryAtom.same (atom atom' : TheoryAtom) : Bool :=
  atom.name == atom'.name && Term.sameAll atom.arguments atom'.arguments &&
    Element.sameAll atom.elements atom'.elements && Guard.sameOption atom.guard atom'.guard

def Head.same : Head → Head → Bool
  | literal content, literal content' => content.same content'
  | aggregate content, aggregate content' => content.same content'
  | theory content, theory content' => content.same content'
  | _, _ => false

def BodyElement.same : BodyElement → BodyElement → Bool
  | literal content, literal content' => content.same content'
  | conditional content, conditional content' => content.same content'
  | theory content, theory content' => content.same content'
  | _, _ => false

def BodyElement.sameAll : List BodyElement → List BodyElement → Bool
  | [], [] => true
  | element :: body, element' :: body' => element.same element' && BodyElement.sameAll body body'
  | _, _ => false

def Rule.same (rule rule' : Rule) : Bool :=
  rule.head.same rule'.head && BodyElement.sameAll rule.body rule'.body

def WeakConstraint.same (constraint constraint' : WeakConstraint) : Bool :=
  constraint.weight.same constraint'.weight && constraint.priority.same constraint'.priority &&
    Term.sameAll constraint.terms constraint'.terms &&
    BodyElement.sameAll constraint.body constraint'.body

def Directive.same (directive directive' : Directive) : Bool :=
  directive.text == directive'.text

def Statement.same : Statement → Statement → Bool
  | rule content, rule content' => content.same content'
  | weakConstraint content, weakConstraint content' => content.same content'
  | directive content, directive content' => content.same content'
  | _, _ => false

def Program.same : Program → Program → Bool
  | [], [] => true
  | statement :: program, statement' :: program' =>
      statement.same statement' && Program.same program program'
  | _, _ => false

end SoftRules
