import SoftRules.Language.Statement

/-!
The kinds of components of a program and their names.
-/

set_option autoImplicit false

namespace SoftRules

inductive Kind where
  | var
  | symbol
  | function
  | operation
  | predicate
  | boolean
  | comparison
  | literal
  | conditional
  | aggregate
  | bodyAggregate
  | theoryAtom
  | rule
  | weakConstraint
  | directive
  deriving DecidableEq, Repr

def Kind.name : Kind → String
  | var => "variable"
  | symbol => "symbol"
  | function => "function"
  | operation => "operation"
  | predicate => "atom"
  | boolean => "boolean"
  | comparison => "comparison"
  | literal => "literal"
  | conditional => "conditional literal"
  | aggregate => "aggregate"
  | bodyAggregate => "body aggregate"
  | theoryAtom => "theory atom"
  | rule => "rule"
  | weakConstraint => "weak constraint"
  | directive => "directive"

def Term.kind : Term → Kind
  | var _ => .var
  | symbol _ _ => .symbol
  | function _ _ _ => .function
  | operation _ _ _ => .operation

def Atom.kind {Lit : Type} : Atom Lit → Kind
  | predicate _ _ => .predicate
  | boolean _ _ => .boolean
  | comparison _ _ _ _ => .comparison
  | aggregate _ => .aggregate
  | bodyAggregate _ => .bodyAggregate

def Head.kind : Head → Kind
  | literal _ => .literal
  | aggregate _ => .aggregate
  | theory _ => .theoryAtom

def BodyElement.kind : BodyElement → Kind
  | literal _ => .literal
  | conditional _ => .conditional
  | theory _ => .theoryAtom

def Statement.kind : Statement → Kind
  | rule _ => .rule
  | weakConstraint _ => .weakConstraint
  | directive _ => .directive

end SoftRules
