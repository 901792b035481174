import SoftRules.Source.Span
import SoftRules.Language.Operator

/-!
Terms: variables, integers and strings, function terms, tuples and arithmetic operations.

A tuple is a function term with an empty name. An operation may carry any number of operands; the
parser builds only binary operations and negations of one operand.
-/

set_option autoImplicit false

namespace SoftRules

structure Variable where
  name : String
  origin : Origin := none
  deriving DecidableEq, Repr

/-- The variable `_` stands for a fresh variable at each occurrence. -/
def Variable.isAnonymous (x : Variable) : Bool :=
  x.name == "_"

inductive Symbol where
  | number (value : Int)
  | text (value : String)
  deriving DecidableEq, Repr

inductive Term where
  | var (x : Variable)
  | symbol (value : Symbol) (origin : Origin := none)
  | function (name : String) (arguments : List Term) (origin : Origin := none)
  | operation (operator : Operator) (operands : List Term) (origin : Origin := none)

instance : Located Variable where
  origin x := x.origin
  relocate origin x := { x with origin }

namespace Term

def origin : Term → Origin
  | var x => x.origin
  | symbol _ origin => origin
  | function _ _ origin => origin
  | operation _ _ origin => origin

def relocate (origin : Origin) : Term → Term
  | var x => var { x with origin }
  | symbol value _ => symbol value origin
  | function name arguments _ => function name arguments origin
  | operation operator operands _ => operation operator operands origin

instance : Located Term := ⟨Term.origin, Term.relocate⟩

def number (value : Int) : Term := symbol (.number value)

def text (value : String) : Term := symbol (.text value)

def constant (name : String) : Term := function name []

def tuple (arguments : List Term) : Term := function "" arguments

def negate (operand : Term) : Term := operation .negation [operand]

/-- The integer or string that the term denotes. -/
def symbol? : Term → Option Symbol
  | symbol value _ => some value
  | _ => none

/-- The name of a function term without arguments. -/
def constant? : Term → Option String
  | function name [] _ => if name == "" then none else some name
  | _ => none

def isNamedFunction : Term → Bool
  | function name _ _ => name != ""
  | _ => false

/-- Whether the term may stand as an atom: a named function term or the classical negation of
one. -/
def isAtom : Term → Bool
  | operation .negation [operand] _ => operand.isNamedFunction
  | term => term.isNamedFunction

mutual

/-- The variables of a term from left to right, with repetitions. -/
def vars : Term → List Variable
  | var x => [x]
  | symbol _ _ => []
  | function _ arguments _ => varsOf arguments
  | operation _ operands _ => varsOf operands

def varsOf : List Term → List Variable
  | [] => []
  | term :: terms => term.vars ++ varsOf terms

end

end Term

end SoftRules
