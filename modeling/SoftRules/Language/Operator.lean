/-!
The operators of arithmetic terms, the relations between terms and the functions of body
aggregates, each with its spelling.
-/

set_option autoImplicit false

namespace SoftRules

inductive Operator where
  | interval
  | sum
  | difference
  | product
  | quotient
  | remainder
  | power
  | negation
  deriving DecidableEq, Repr

namespace Operator

def symbol : Operator → String
  | interval => ".."
  | sum => "+"
  | difference => "-"
  | product => "*"
  | quotient => "/"
  | remainder => "\\"
  | power => "**"
  | negation => "-"

/-- Operators of greater strength bind tighter. -/
def strength : Operator → Nat
  | interval => 0
  | sum | difference => 1
  | product | quotient | remainder => 2
  | power => 3
  | negation => 4

def isUnary : Operator → Bool
  | negation => true
  | _ => false

def associatesRight : Operator → Bool
  | power => true
  | _ => false

/-- The least strength that an operation may have as unparenthesised right operand. -/
def rightStrength (operator : Operator) : Nat :=
  if operator.associatesRight then operator.strength else operator.strength + 1

/-- The binary operators, those whose spelling starts with that of another one first. -/
def binary : List Operator :=
  [interval, power, sum, difference, product, quotient, remainder]

/-- The binary operator of a given spelling. -/
def ofSymbol? (text : String) : Option Operator :=
  binary.find? (·.symbol == text)

end Operator

inductive Relation where
  | equal
  | unequal
  | less
  | lessEqual
  | greater
  | greaterEqual
  deriving DecidableEq, Repr

namespace Relation

def symbol : Relation → String
  | equal => "="
  | unequal => "!="
  | less => "<"
  | lessEqual => "<="
  | greater => ">"
  | greaterEqual => ">="

def all : List Relation := [equal, unequal, less, lessEqual, greater, greaterEqual]

def ofSymbol? (text : String) : Option Relation :=
  all.find? (·.symbol == text)

end Relation

inductive AggregateFunction where
  | count
  | sum
  | sumPlus
  | min
  | max
  deriving DecidableEq, Repr

namespace AggregateFunction

def symbol : AggregateFunction → String
  | count => "#count"
  | sum => "#sum"
  | sumPlus => "#sum+"
  | min => "#min"
  | max => "#max"

def all : List AggregateFunction := [count, sum, sumPlus, min, max]

def ofSymbol? (text : String) : Option AggregateFunction :=
  all.find? (·.symbol == text)

end AggregateFunction

/-- Default negation in front of an atom, which may be doubled. -/
inductive Sign where
  | plain
  | negated
  | doublyNegated
  deriving DecidableEq, Repr

end SoftRules
