import SoftRules.Proofs.Encoding.Session
import Mathlib.Data.List.Forall2

/-!
The statements for rules that are headed by a P-log annotation.

`Session.encodePlog_ok` says all that the standard encoding can make of such a rule: a random
selection keeps the body, each element of a probability leaves a penalty with the body behind it,
and observations and interventions leave rules of literals alone.
-/

set_option autoImplicit false

namespace SoftRules

/-- Each member of a list that runs along with another one has its partner there. -/
theorem exists_of_forall₂ {α β : Type} {related : α → β → Prop} {first : List α} {second : List β}
    (along : List.Forall₂ related first second) :
    ∀ value ∈ second, ∃ partner ∈ first, related partner value := by
  induction along with
  | nil => simp
  | @cons partner value first second isPartner others inductionHypothesis =>
      refine List.forall_mem_cons.mpr ⟨⟨partner, List.mem_cons_self .., isPartner⟩, ?_⟩
      intro other member
      obtain ⟨source, isSource, isRelated⟩ := inductionHypothesis other member
      exact ⟨source, List.mem_cons_of_mem _ isSource, isRelated⟩

namespace Plog

variable {remark : TheoryAtom} {element : Element Literal} {body : List BodyElement}
  {statements : List Statement}

/-- The elements are encoded one by one. -/
theorem forElements_ok_iff {α : Type} {encode : Element Literal → Logged α}
    {elements : List (Element Literal)} {values : List α} :
    (forElements encode elements).result = .ok values ↔
      List.Forall₂ (fun element value => (encode element).result = .ok value) elements values := by
  induction elements generalizing values with
  | nil =>
      constructor
      · intro ok
        cases ok
        exact .nil
      · rintro ⟨⟩
        rfl
  | cons element elements inductionHypothesis =>
      simp only [forElements, Logged.result_bind_eq_ok]
      constructor
      · rintro ⟨first, isFirst, others, areOthers, ok⟩
        cases ok
        exact .cons isFirst (inductionHypothesis.mp areOthers)
      · rintro (_ | ⟨isFirst, areOthers⟩)
        exact ⟨_, isFirst, _, inductionHypothesis.mpr areOthers, rfl⟩

theorem elements_ok {found : List (Element Literal)}
    (ok : (elements remark).result = .ok found) :
    found = remark.elements ∧ remark.elements ≠ [] := by
  unfold elements at ok
  split at ok
  · cases ok
  · next nonempty =>
      cases ok
      exact ⟨rfl, by simpa using nonempty⟩

theorem elements_of_ne_nil (nonempty : remark.elements ≠ []) :
    (elements remark).result = .ok remark.elements := by
  simp [elements, nonempty]

theorem elementAtom_ok {atom : Term} (ok : (elementAtom remark element).result = .ok atom) :
    element.terms = [atom] ∧ atom.isAtom = true := by
  unfold elementAtom at ok
  split at ok
  · next shape =>
      split at ok
      · next isAtom =>
          cases ok
          exact ⟨shape, isAtom⟩
      · cases ok
  · cases ok

/-- The choice of an element. -/
def choice (remark : TheoryAtom) (element : Element Literal) (atom : Term) :
    Conditional Literal where
  literal := .positive (.predicate atom) remark.origin
  condition := element.condition

/-- Exactly one of the choices is made. -/
def selection (remark : TheoryAtom) (choices : List (Conditional Literal)) : Aggregate Literal where
  elements := choices
  right := some ⟨.equal, .number 1⟩
  origin := remark.origin

/-- The penalty for an element that is not selected. -/
def penalty (weight : Weight) (remark : TheoryAtom) (body : List BodyElement)
    (element : Element Literal) (atom : Term) : WeakConstraint where
  body :=
    (Literal.negative (.predicate atom) remark.origin :: element.condition).map .literal ++ body
  weight := weight.toTerm
  priority := .number 0
  terms := [.constant "pr", atom, .tuple ((bodyVariables body).map .var)]
  origin := remark.origin

/-- The rule for an element of an observation or an intervention. -/
def observed (value : Bool) (remark : TheoryAtom) (element : Element Literal) (atom : Term) :
    Rule :=
  let origin := remark.origin
  let condition := element.condition.map BodyElement.literal
  if !(remark.name == Treatment.observation.name) then
    { head := .literal (.positive (.predicate atom) origin), body := condition, origin }
  else if value then .constraint (.literal (.negative (.predicate atom) origin) :: condition) origin
  else .constraint (.literal (.positive (.predicate atom) origin) :: condition) origin

/-- The value of an observation is read, that of an intervention is not. -/
theorem observation_eq (remark : TheoryAtom) :
    observation remark =
      (if remark.name == Treatment.observation.name then observedValue remark else pure true) >>=
        fun value => elements remark >>= forElements fun element =>
          elementAtom remark element >>= fun atom =>
            pure (.rule (observed value remark element atom)) := by
  unfold observation observed
  cases remark.name == Treatment.observation.name <;> rfl

/-- The element has an atom, and the value is made of both. -/
def Makes {α : Type} (remark : TheoryAtom) (make : Element Literal → Term → α)
    (element : Element Literal) (value : α) : Prop :=
  ∃ atom, (elementAtom remark element).result = .ok atom ∧ value = make element atom

/-- What becomes of a rule that is headed by a P-log annotation. -/
inductive Encoded (remark : TheoryAtom) (body : List BodyElement) :
    Treatment → List Statement → Prop
  | random {choices : List (Conditional Literal)}
      (chosen : List.Forall₂ (Makes remark (choice remark)) remark.elements choices) :
      Encoded remark body .random
        [.rule { head := .aggregate (selection remark choices), body, origin := remark.origin }]
  | probability {weight : Weight} {statements : List Statement} (nonempty : remark.elements ≠ [])
      (charged : List.Forall₂ (Makes remark fun element atom =>
        .weakConstraint (penalty weight remark body element atom)) remark.elements statements) :
      Encoded remark body .probability statements
  | observation {treatment : Treatment} {value : Bool} {statements : List Statement}
      (other : treatment ≠ .random ∧ treatment ≠ .probability)
      (stated : List.Forall₂ (Makes remark fun element atom =>
        .rule (observed value remark element atom)) remark.elements statements) :
      Encoded remark body treatment statements

/-- An encoding of elements that reads the atom first. -/
theorem makes_of_forElements {α : Type} {make : Element Literal → Term → α}
    {elements : List (Element Literal)} {values : List α}
    (ok : (forElements (fun element => do return make element (← elementAtom remark element))
      elements).result = .ok values) :
    List.Forall₂ (Makes remark make) elements values := by
  refine (forElements_ok_iff.mp ok).imp fun element value encoded => ?_
  obtain ⟨atom, isAtom, made⟩ := Logged.result_bind_eq_ok.mp encoded
  cases made
  exact ⟨atom, isAtom, rfl⟩

theorem forElements_of_makes {α : Type} {make : Element Literal → Term → α}
    {elements : List (Element Literal)} {values : List α}
    (along : List.Forall₂ (Makes remark make) elements values) :
    (forElements (fun element => do return make element (← elementAtom remark element))
      elements).result = .ok values := by
  refine forElements_ok_iff.mpr (along.imp fun element value made => ?_)
  obtain ⟨atom, isAtom, rfl⟩ := made
  exact Logged.result_bind_eq_ok.mpr ⟨atom, isAtom, rfl⟩

theorem encoded_random (ok : (random remark body).result = .ok statements) :
    Encoded remark body .random statements := by
  simp only [random, Logged.result_bind_eq_ok] at ok
  obtain ⟨elements, found, choices, converted, _, -, ok⟩ := ok
  cases ok
  obtain ⟨rfl, -⟩ := elements_ok found
  exact .random (makes_of_forElements converted)

/-- The probability is read before the elements are looked at. -/
theorem probability_ok_iff {power : Int} :
    (probability power remark body).result = .ok statements ↔
      ∃ stated weight, (statedProbability remark).result = .ok stated ∧
        Weight.ofFormula .log stated power = .ok weight ∧ remark.elements ≠ [] ∧
        List.Forall₂ (Makes remark fun element atom => .weakConstraint
          (penalty weight remark body element atom)) remark.elements statements := by
  simp only [probability, Logged.result_bind_eq_ok]
  constructor
  · rintro ⟨stated, isStated, ok⟩
    cases computed : Weight.ofFormula .log stated power with
    | ok weight =>
        simp only [computed, pure_bind, Logged.result_bind_eq_ok] at ok
        obtain ⟨elements, found, converted⟩ := ok
        obtain ⟨rfl, nonempty⟩ := elements_ok found
        exact ⟨stated, weight, isStated, computed, nonempty, makes_of_forElements converted⟩
    | error error =>
        simp only [computed, Logged.result_bind_eq_ok] at ok
        obtain ⟨weight, failed, -⟩ := ok
        cases failed
  · rintro ⟨stated, weight, isStated, computed, nonempty, charged⟩
    refine ⟨stated, isStated, ?_⟩
    simp only [computed, pure_bind, Logged.result_bind_eq_ok]
    exact ⟨remark.elements, elements_of_ne_nil nonempty, forElements_of_makes charged⟩

theorem encoded_probability {power : Int}
    (ok : (probability power remark body).result = .ok statements) :
    Encoded remark body .probability statements := by
  obtain ⟨stated, weight, -, -, nonempty, charged⟩ := probability_ok_iff.mp ok
  exact .probability nonempty charged

theorem encoded_observation {treatment : Treatment}
    (other : treatment ≠ .random ∧ treatment ≠ .probability)
    (ok : (observation remark).result = .ok statements) :
    Encoded remark body treatment statements := by
  simp only [observation_eq, Logged.result_bind_eq_ok] at ok
  obtain ⟨value, -, elements, found, converted⟩ := ok
  obtain ⟨rfl, -⟩ := elements_ok found
  exact .observation other (makes_of_forElements converted)

end Plog

theorem Head.plogAtom_ok {treatment : Treatment} {head : Head} {remark : TheoryAtom}
    (ok : (head.plogAtom treatment).result = .ok remark) :
    head = .theory remark ∧ remark.name = treatment.name := by
  unfold Head.plogAtom at ok
  split at ok
  · split at ok
    · next named =>
        cases ok
        exact ⟨rfl, by simpa using named⟩
    · cases ok
  · cases ok

/-- The conversion that a treatment asks for. -/
def PlogEncoder.convert (encoder : PlogEncoder) (treatment : Treatment) (remark : TheoryAtom)
    (body : List BodyElement) : Logged (List Statement) :=
  match treatment with
  | .random => encoder.random remark body
  | .probability => encoder.probability remark body
  | _ => encoder.observation remark

/-- Apart from what is written to the log, a rule with a P-log annotation is the conversion of the
annotation in its head. -/
theorem Session.encodePlog_result (session : Session) (source : Rule) (treatment : Treatment)
    (rule : ProfiledRule) :
    (session.encodePlog source treatment rule).result =
      (rule.head.plogAtom treatment >>= fun remark =>
        session.plog.convert treatment remark rule.body).result := by
  have written (level : Level) (message : String) (further : Logged (List Statement)) :
      (Logged.write level message >>= fun _ => further).result = further.result := by
    simp
  simp only [encodePlog, Logged.result_bind, PlogEncoder.convert]
  congr 1
  funext remark
  cases treatment with
  | random => exact written _ _ _
  | probability => exact written _ _ _
  | _ =>
      simp only
      split
      · exact written _ _ _
      · rfl

/-- The standard encoding of a rule with a P-log annotation uses the one in its head. -/
theorem Session.encodePlog_ok {session : Session} {source : Rule} {treatment : Treatment}
    {rule : ProfiledRule} {statements : List Statement}
    (standard : ∃ power, session.plog = .standard power)
    (ok : (session.encodePlog source treatment rule).result = .ok statements) :
    ∃ remark, rule.head = .theory remark ∧ remark.name = treatment.name ∧
      Plog.Encoded remark rule.body treatment statements := by
  obtain ⟨power, standard⟩ := standard
  rw [encodePlog_result, Logged.result_bind_eq_ok, standard] at ok
  obtain ⟨remark, isHead, ok⟩ := ok
  obtain ⟨isHead, named⟩ := Head.plogAtom_ok isHead
  refine ⟨remark, isHead, named, ?_⟩
  unfold PlogEncoder.convert at ok
  split at ok
  · exact Plog.encoded_random ok
  · exact Plog.encoded_probability ok
  · next notRandom notProbability =>
      exact Plog.encoded_observation ⟨notRandom, notProbability⟩ ok

end SoftRules
