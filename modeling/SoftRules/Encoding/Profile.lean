import SoftRules.Encoding.Logged
import SoftRules.Language.Visitor

/-!
The profile of a rule: its weight, the treatment that its annotations ask for and its global
variables.

The profile is collected by a traversal of the head and the body. Weights become `#true` and
evidence becomes its literal; other annotations stay in place. Variables of theory atoms do not
count, and neither do those that occur only in conditional literals or in elements of aggregates.
-/

set_option autoImplicit false

namespace SoftRules

inductive RuleWeight where
  | hard
  | soft (weight : Weight)

def RuleWeight.isHard : RuleWeight → Bool
  | hard => true
  | soft _ => false

structure Profile where
  weight : RuleWeight := .hard
  treatment : Option Treatment := none
  /-- The literal that must not hold according to the last evidence annotation. -/
  evidence : Option Literal := none
  /-- Distinct variables in the order of their first occurrence. -/
  globals : List Variable := []

/-- Adds a variable to a list, unless it is anonymous or its name is there already. -/
def addVariable (known : List Variable) (x : Variable) : List Variable :=
  if x.isAnonymous || known.any (·.name == x.name) then known else known ++ [x]

/-- Whether variables are global or bound inside of an element or a conditional literal. -/
inductive Scope where
  | outer
  | inner
  deriving DecidableEq, Repr

abbrev Profiling := ReaderT Scope (StateT Profile Logged)

/-- What a theory atom turns into. -/
inductive Reading where
  | keep (atom : TheoryAtom)
  | replace (literal : Literal)

namespace Reading

def toHead : Reading → Head
  | keep atom => .theory atom
  | replace literal => .literal literal

def toBodyElement : Reading → BodyElement
  | keep atom => .theory atom
  | replace literal => .literal literal

end Reading

/-- The literal that must not hold: the negation of the atom, or the atom itself if the evidence
says that it is false. -/
def evidenceLiteral (remark : TheoryAtom) : Except EvidenceFault Literal :=
  match remark.arguments with
  | [atom] => literal atom none
  | [atom, value] => literal atom value.constant?
  | _ => .error .argumentCount
where
  literal (atom : Term) (value : Option String) : Except EvidenceFault Literal :=
    if !atom.isAtom then .error .notAnAtom
    else
      let sign := if value == some "false" then .plain else .negated
      .ok { sign, atom := .predicate atom, origin := remark.origin }

def readTreatment (treatment : Treatment) (remark : TheoryAtom) : Profiling Reading := do
  Logged.write .trace ("found annotation &" ++ treatment.name)
  modify fun profile => { profile with treatment := some treatment }
  match treatment with
  | .evidence =>
      match evidenceLiteral remark with
      | .error fault => Logged.fail (.evidence fault) remark.origin
      | .ok literal =>
          modify fun profile => { profile with evidence := some literal }
          return .replace literal
  | _ => return .keep remark

def readWeight (power : Int) (formula : WeightFormula) (argument : Term) (origin : Origin) :
    Profiling Reading := do
  if !(← get).weight.isHard then Logged.fail .multipleWeights origin
  match Weight.ofFormula formula argument power with
  | .error error => Logged.fail (.weight error) origin
  | .ok weight =>
      Logged.write .trace ("found weight " ++ weight.render ++ " in &" ++ formula.name)
      modify fun profile => { profile with weight := .soft weight }
      return .replace { Literal.boolean true with origin }

def readTheoryAtom (power : Int) (remark : TheoryAtom) : Profiling Reading :=
  match Treatment.ofName? remark.name, WeightFormula.ofName? remark.name,
      remark.arguments with
  | some treatment, _, _ => readTreatment treatment remark
  | none, some formula, [argument] => readWeight power formula argument remark.origin
  | none, _, _ =>
      Logged.fail (.unsupported remark.name remark.arguments.length) remark.origin

/-- Weights have no place in a head. -/
def readTheoryHead (power : Int) (remark : TheoryAtom) : Profiling Head := do
  if (WeightFormula.ofName? remark.name).isSome then
    Logged.fail (.annotationHead remark.name) remark.origin
  return (← readTheoryAtom power remark).toHead

def profiler (power : Int) : Visitor Profiling where
  head head walk :=
    match head with
    | .theory remark => readTheoryHead power remark
    | _ => walk
  bodyElement element walk :=
    match element with
    | .theory remark => do return (← readTheoryAtom power remark).toBodyElement
    | _ => walk
  conditional _ walk := withReader (fun _ => .inner) walk
  element _ walk := withReader (fun _ => .inner) walk
  var x walk := do
    if (← read) = .outer then
      modify fun profile => { profile with globals := addVariable profile.globals x }
    walk

/-- A rule whose annotations have been read. -/
structure ProfiledRule where
  head : Head
  body : List BodyElement
  profile : Profile

def Rule.profile (power : Int) (rule : Rule) : Logged ProfiledRule := do
  let visit : Profiling (Head × List BodyElement) := do
    let head ← rule.head.visit (profiler power)
    let body ← BodyElement.visitAll (profiler power) rule.body
    return (head, body)
  let ((head, body), profile) ← (visit.run .outer).run {}
  return { head, body, profile }

end SoftRules
