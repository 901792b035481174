import SoftRules.Number.Logarithm

/-!
The annotations of rules: those that ask for a special treatment of the whole rule and those that
give it a weight.
-/

set_option autoImplicit false

namespace SoftRules

/-- Annotations that decide how the whole rule is treated. -/
inductive Treatment where
  | query
  | evidence
  | random
  | probability
  | observation
  | intervention
  deriving DecidableEq, Repr

namespace Treatment

def name : Treatment → String
  | query => "query"
  | evidence => "evidence"
  | random => "random"
  | probability => "pr"
  | observation => "obs"
  | intervention => "do"

def all : List Treatment := [query, evidence, random, probability, observation, intervention]

def ofName? (text : String) : Option Treatment :=
  all.find? (·.name == text)

end Treatment

/-- Annotations that give a rule a weight, by the formula applied to their argument. -/
inductive WeightFormula where
  | weight
  | log
  | problog
  deriving DecidableEq, Repr

namespace WeightFormula

def name : WeightFormula → String
  | weight => "weight"
  | log => "log"
  | problog => "problog"

def all : List WeightFormula := [weight, log, problog]

def ofName? (text : String) : Option WeightFormula :=
  all.find? (·.name == text)

/-- The weight itself, its logarithm, or the logarithm of the odds of a probability. There is no
value outside of the domain of the formula. -/
def value? (formula : WeightFormula) (value : Float) : Option Float :=
  match formula with
  | weight => some value
  | log => if 0 < value then some (Number.log value) else none
  | problog =>
      if 0 < value ∧ value < 1 then some (Number.log (value / (1 - value))) else none

end WeightFormula

end SoftRules
