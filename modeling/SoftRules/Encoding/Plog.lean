import SoftRules.Encoding.Mode
import SoftRules.Encoding.Profile

/-!
Rules headed by a P-log annotation: random selections, probabilities, observations and
interventions.
-/

set_option autoImplicit false

namespace SoftRules

/-- How rules headed by a P-log annotation are encoded. -/
structure PlogEncoder where
  /-- The rule `&random { ... } :- body`. -/
  random : TheoryAtom → List BodyElement → Logged (List Statement)
  /-- The rule `&pr { ... } = p :- body`. -/
  probability : TheoryAtom → List BodyElement → Logged (List Statement)
  /-- The rule `&obs { ... }` or `&do { ... }`. -/
  observation : TheoryAtom → Logged (List Statement)

namespace Plog

def malformed {α : Type} (remark : TheoryAtom) (fault : PlogFault) : Logged α :=
  .fail (.plog fault) remark.origin

/-- The elements of an annotation, of which there must be one. -/
def elements (remark : TheoryAtom) : Logged (List (Element Literal)) :=
  if remark.elements.isEmpty then malformed remark (.noElements remark.name)
  else pure remark.elements

/-- The single term of an element, which must be an atom. -/
def elementAtom (remark : TheoryAtom) (element : Element Literal) : Logged Term :=
  match element.terms with
  | [term] =>
      if term.isAtom then pure term else malformed remark (.notAnAtom element.render)
  | _ => malformed remark (.notAnAtom element.render)

/-- Applies `encode` to the elements from left to right, up to the first that fails. -/
def forElements {α : Type} (encode : Element Literal → Logged α) :
    List (Element Literal) → Logged (List α)
  | [] => pure []
  | element :: elements => do
      let first ← encode element
      let others ← forElements encode elements
      return first :: others

/-- Exactly one of the elements is selected. -/
def random (remark : TheoryAtom) (body : List BodyElement) : Logged (List Statement) := do
  let origin := remark.origin
  let choices ← forElements
    (fun element => do
      let atom ← elementAtom remark element
      return ({ literal := .positive (.predicate atom) origin, condition := element.condition } :
        Conditional Literal))
    (← elements remark)
  Logged.write .debug
    ("random selection over " ++ toString choices.length ++ " element(s)")
  let choice : Aggregate Literal :=
    { elements := choices, right := some ⟨.equal, .number 1⟩, origin }
  return [.rule { head := .aggregate choice, body, origin }]

/-- The distinct named variables of a body in the order of their first occurrence. -/
def bodyVariables (body : List BodyElement) : List Variable :=
  (body.flatMap BodyElement.vars).foldl addVariable []

/-- The probability that the guard of an annotation states. -/
def statedProbability (remark : TheoryAtom) : Logged Term :=
  match remark.guard with
  | some ⟨.equal, term⟩ => pure term
  | _ => malformed remark .noProbability

/-- An element that is not selected is charged the logarithm of its probability. -/
def probability (power : Int) (remark : TheoryAtom) (body : List BodyElement) :
    Logged (List Statement) := do
  let origin := remark.origin
  let stated ← statedProbability remark
  let weight ←
    match Weight.ofFormula .log stated power with
    | .ok weight => pure weight
    | .error error => malformed remark (.invalidProbability error)
  let globals := Term.tuple ((bodyVariables body).map .var)
  forElements
    (fun element => do
      let atom ← elementAtom remark element
      let notSelected := Literal.negative (.predicate atom) origin
      return .weakConstraint {
        body := (notSelected :: element.condition).map .literal ++ body
        weight := weight.toTerm
        priority := .number 0
        terms := [.constant "pr", atom, globals]
        origin })
    (← elements remark)

/-- The truth value that an observation states, which is true by default. -/
def observedValue (remark : TheoryAtom) : Logged Bool :=
  match remark.guard with
  | none => pure true
  | some ⟨relation, term⟩ =>
      match relation, term.constant? with
      | .equal, some "true" => pure true
      | .equal, some "false" => pure false
      | _, _ =>
          malformed remark (.invalidObservation (relation.symbol ++ " " ++ term.render))

/-- An intervention makes its elements true. An observation forbids that they have another value
than the observed one. -/
def observation (remark : TheoryAtom) : Logged (List Statement) := do
  let origin := remark.origin
  let isObservation := remark.name == Treatment.observation.name
  let value ← if isObservation then observedValue remark else pure true
  forElements
    (fun element => do
      let atom ← elementAtom remark element
      let condition := element.condition.map BodyElement.literal
      let holds := Literal.positive (.predicate atom) origin
      let fails := Literal.negative (.predicate atom) origin
      return .rule <|
        if !isObservation then { head := .literal holds, body := condition, origin }
        else if value then .constraint (.literal fails :: condition) origin
        else .constraint (.literal holds :: condition) origin)
    (← elements remark)

end Plog

/-- The usual encoding, with logarithms of probabilities scaled by a power of ten. -/
def PlogEncoder.standard (power : Int := defaultPower) : PlogEncoder where
  random := Plog.random
  probability := Plog.probability power
  observation := Plog.observation

end SoftRules
