import SoftRules.Language.Statement

/-!
What a component hands to a hash function: its content as a flat list of data, without origins.
Alternatives are preceded by their number and lists by their length, so the content can be read
back from the list.
-/

set_option autoImplicit false

namespace SoftRules

inductive Datum where
  | alternative (number : Nat)
  | length (size : Nat)
  | number (value : Int)
  | text (value : String)
  | flag (value : Bool)
  deriving DecidableEq, Repr

def Operator.digest (operator : Operator) : List Datum := [.alternative operator.ctorIdx]

def Relation.digest (relation : Relation) : List Datum := [.alternative relation.ctorIdx]

def AggregateFunction.digest (function : AggregateFunction) : List Datum :=
  [.alternative function.ctorIdx]

def Sign.digest (sign : Sign) : List Datum := [.alternative sign.ctorIdx]

def Variable.digest (x : Variable) : List Datum := [.text x.name]

def Symbol.digest : Symbol → List Datum
  | number value => [.alternative 0, .number value]
  | text value => [.alternative 1, .text value]

mutual

def Term.digest : Term → List Datum
  | .var x => .alternative 0 :: x.digest
  | .symbol value _ => .alternative 1 :: value.digest
  | .function name arguments _ =>
      .alternative 2 :: .text name :: .length arguments.length :: Term.digestAll arguments
  | .operation operator operands _ =>
      .alternative 3 :: operator.digest ++ .length operands.length :: Term.digestAll operands

def Term.digestAll : List Term → List Datum
  | [] => []
  | term :: terms => term.digest ++ Term.digestAll terms

end

def Guard.digest : Option Guard → List Datum
  | none => [.alternative 0]
  | some guard => .alternative 1 :: guard.relation.digest ++ guard.term.digest

mutual

def Literal.digest : Literal → List Datum
  | ⟨sign, atom, _⟩ => sign.digest ++ atom.digest

def Literal.digestAll : List Literal → List Datum
  | [] => []
  | literal :: literals => literal.digest ++ Literal.digestAll literals

def Atom.digest : Atom Literal → List Datum
  | .predicate term _ => .alternative 0 :: term.digest
  | .boolean value _ => [.alternative 1, .flag value]
  | .comparison left relation right _ =>
      .alternative 2 :: left.digest ++ relation.digest ++ right.digest
  | .aggregate content => .alternative 3 :: content.digest
  | .bodyAggregate content => .alternative 4 :: content.digest

def Aggregate.digest : Aggregate Literal → List Datum
  | ⟨left, elements, right, _⟩ =>
      Guard.digest left ++ .length elements.length :: Conditional.digestAll elements ++
        Guard.digest right

def BodyAggregate.digest : BodyAggregate Literal → List Datum
  | ⟨function, left, elements, right, _⟩ =>
      function.digest ++ Guard.digest left ++
        .length elements.length :: Element.digestAll elements ++ Guard.digest right

def Conditional.digest : Conditional Literal → List Datum
  | ⟨literal, condition, _⟩ =>
      literal.digest ++ .length condition.length :: Literal.digestAll condition

def Conditional.digestAll : List (Conditional Literal) → List Datum
  | [] => []
  | element :: elements => element.digest ++ Conditional.digestAll elements

def Element.digest : Element Literal → List Datum
  | ⟨terms, condition⟩ =>
      .length terms.length :: Term.digestAll terms ++
        .length condition.length :: Literal.digestAll condition

def Element.digestAll : List (Element Literal) → List Datum
  | [] => []
  | element :: elements => element.digest ++ Element.digestAll elements

end

def TheoryAtom.digest (atom : TheoryAtom) : List Datum :=
  .text atom.name :: .length atom.arguments.length :: Term.digestAll atom.arguments ++
    .length atom.elements.length :: Element.digestAll atom.elements ++ Guard.digest atom.guard

def Head.digest : Head → List Datum
  | literal content => .alternative 0 :: content.digest
  | aggregate content => .alternative 1 :: content.digest
  | theory content => .alternative 2 :: content.digest

def BodyElement.digest : BodyElement → List Datum
  | literal content => .alternative 0 :: content.digest
  | conditional content => .alternative 1 :: content.digest
  | theory content => .alternative 2 :: content.digest

def Rule.digest (rule : Rule) : List Datum :=
  rule.head.digest ++ .length rule.body.length :: rule.body.flatMap BodyElement.digest

def WeakConstraint.digest (constraint : WeakConstraint) : List Datum :=
  constraint.weight.digest ++ constraint.priority.digest ++
    .length constraint.terms.length :: Term.digestAll constraint.terms ++
    .length constraint.body.length :: constraint.body.flatMap BodyElement.digest

def Directive.digest (directive : Directive) : List Datum := [.text directive.text]

def Statement.digest : Statement → List Datum
  | rule content => .alternative 0 :: content.digest
  | weakConstraint content => .alternative 1 :: content.digest
  | directive content => .alternative 2 :: content.digest

end SoftRules
