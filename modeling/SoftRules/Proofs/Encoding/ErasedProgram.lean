import SoftRules.Proofs.Encoding.Calls
import SoftRules.Proofs.Encoding.ErasedRule
import SoftRules.Proofs.Encoding.Plog

/-!
Origins do not matter to the encoding of a program. Programs that are the same are encoded as
programs that are the same, or refused for the same cause (`Program.encode_of_same`).
-/

set_option autoImplicit false

namespace SoftRules

/-! ### Annotations of P-log -/

namespace Plog

theorem elements_erase (remark : TheoryAtom) :
    elements remark.erase = (elements remark).erase (List.map Element.erase) := by
  have list : remark.erase.elements = remark.elements.map Element.erase :=
    Element.eraseAll_eq remark.elements
  rw [elements, elements, list, List.isEmpty_map]
  cases remark.elements.isEmpty <;> rfl

theorem elementAtom_erase (remark : TheoryAtom) (element : Element Literal) :
    elementAtom remark.erase element.erase = (elementAtom remark element).erase Term.erase := by
  have shown := element.render_erase
  obtain ⟨terms, condition⟩ := element
  unfold elementAtom
  rw [shown]
  match terms with
  | [] => rfl
  | [term] =>
      show (if term.erase.isAtom then _ else _) = Logged.erase _ (if term.isAtom then _ else _)
      rw [term.isAtom_erase]
      cases term.isAtom <;> rfl
  | _ :: _ :: _ => rfl

theorem forElements_erase {α β : Type} (change : α → β) {encode : Element Literal → Logged α}
    {encode' : Element Literal → Logged β}
    (each : ∀ element, encode' element.erase = (encode element).erase change)
    (elements : List (Element Literal)) :
    forElements encode' (elements.map Element.erase) =
      (forElements encode elements).erase (List.map change) := by
  induction elements with
  | nil => rfl
  | cons element elements inductionHypothesis =>
      apply Logged.bind_erase (each element)
      intro first
      apply Logged.bind_erase inductionHypothesis
      intro others
      rfl

/-- The condition of an element as a body. -/
theorem condition_erase (element : Element Literal) :
    element.erase.condition.map BodyElement.literal =
      (element.condition.map BodyElement.literal).map BodyElement.erase := by
  obtain ⟨terms, condition⟩ := element
  show (Literal.eraseAll condition).map BodyElement.literal = _
  rw [Literal.eraseAll_eq, List.map_map, List.map_map]
  rfl

theorem random_erase (remark : TheoryAtom) (body : List BodyElement) :
    random remark.erase (body.map BodyElement.erase) =
      (random remark body).erase (List.map Statement.erase) := by
  unfold random
  apply Logged.bind_erase (elements_erase remark)
  intro elements
  refine Logged.bind_erase (forElements_erase Conditional.erase ?_ elements) ?_
  · intro element
    apply Logged.bind_erase (elementAtom_erase remark element)
    intro atom
    obtain ⟨terms, condition⟩ := element
    rfl
  · intro choices
    rw [List.length_map]
    apply Logged.write_bind_erase
    rw [← Conditional.eraseAll_eq]
    rfl

theorem bodyVariables_erase (body : List BodyElement) :
    bodyVariables (body.map BodyElement.erase) = (bodyVariables body).map Variable.erase := by
  have met : (body.map BodyElement.erase).flatMap BodyElement.vars =
      (body.flatMap BodyElement.vars).map Variable.erase := by
    rw [List.flatMap_map, List.map_flatMap]
    simp only [BodyElement.vars_erase]
  rw [bodyVariables, met]
  exact foldl_addVariable_erase [] _

theorem statedProbability_erase (remark : TheoryAtom) :
    statedProbability remark.erase = (statedProbability remark).erase Term.erase := by
  obtain ⟨name, arguments, elements, guard, origin⟩ := remark
  match guard with
  | none => rfl
  | some ⟨relation, term⟩ => cases relation <;> rfl

theorem probability_erase (power : Int) (remark : TheoryAtom) (body : List BodyElement) :
    probability power remark.erase (body.map BodyElement.erase) =
      (probability power remark body).erase (List.map Statement.erase) := by
  unfold probability
  apply Logged.bind_erase (statedProbability_erase remark)
  intro stated
  rw [Weight.ofFormula_erase, bodyVariables_erase, Term.tuple_vars_erase]
  cases Weight.ofFormula .log stated power with
  | error error => rfl
  | ok weight =>
      apply Logged.bind_erase (elements_erase remark)
      intro elements
      apply forElements_erase Statement.erase
      intro element
      apply Logged.bind_erase (elementAtom_erase remark element)
      intro atom
      simp only [List.map_cons, condition_erase]
      rw [Logged.erase_pure, Statement.erase, WeakConstraint.erase, List.map_append]
      rfl

theorem observedValue_erase (remark : TheoryAtom) :
    observedValue remark.erase = (observedValue remark).erase id := by
  obtain ⟨name, arguments, elements, guard, origin⟩ := remark
  match guard with
  | none => rfl
  | some ⟨relation, term⟩ =>
      unfold observedValue
      simp only [TheoryAtom.erase, Option.map_some, Guard.erase, Term.constant?_erase,
        Term.render_erase]
      split <;> rfl

theorem observation_erase (remark : TheoryAtom) :
    observation remark.erase = (observation remark).erase (List.map Statement.erase) := by
  have value : (if remark.erase.name == Treatment.observation.name then observedValue remark.erase
        else pure true) =
      Logged.erase id (if remark.name == Treatment.observation.name then observedValue remark
        else pure true) := by
    rw [observedValue_erase, apply_ite (Logged.erase id)]
    rfl
  rw [observation_eq, observation_eq]
  apply Logged.bind_erase value
  intro value
  apply Logged.bind_erase (elements_erase remark)
  intro elements
  apply forElements_erase Statement.erase
  intro element
  apply Logged.bind_erase (elementAtom_erase remark element)
  intro atom
  unfold observed
  rw [condition_erase]
  show pure (Statement.rule (if !(remark.name == Treatment.observation.name) then _ else _)) = _
  cases remark.name == Treatment.observation.name <;> cases value <;> rfl

end Plog

/-- An encoding of P-log annotations to which origins do not matter. -/
structure PlogEncoder.IgnoresOrigins (plog : PlogEncoder) : Prop where
  random (remark : TheoryAtom) (body : List BodyElement) :
    plog.random remark.erase (body.map BodyElement.erase) =
      (plog.random remark body).erase (List.map Statement.erase)
  probability (remark : TheoryAtom) (body : List BodyElement) :
    plog.probability remark.erase (body.map BodyElement.erase) =
      (plog.probability remark body).erase (List.map Statement.erase)
  observation (remark : TheoryAtom) :
    plog.observation remark.erase = (plog.observation remark).erase (List.map Statement.erase)

theorem PlogEncoder.standard_ignoresOrigins (power : Int) :
    (PlogEncoder.standard power).IgnoresOrigins :=
  ⟨Plog.random_erase, Plog.probability_erase power, Plog.observation_erase⟩

/-! ### Sessions -/

def Expansion.erase (expansion : Expansion) : Expansion where
  preceding := expansion.preceding.map Statement.erase
  statement := expansion.statement.erase

theorem Expansion.statements_erase (expansion : Expansion) :
    expansion.erase.statements = expansion.statements.map Statement.erase := by
  simp [Expansion.statements, Expansion.erase]

theorem Expansion.ofStatements?_erase (statements : List Statement) :
    Expansion.ofStatements? (statements.map Statement.erase) =
      (Expansion.ofStatements? statements).map Expansion.erase := by
  simp [Expansion.ofStatements?, Function.comp_def, Expansion.erase]

theorem Expansion.ofStatements_erase (source : Rule) (statements : List Statement) :
    Expansion.ofStatements source.erase (statements.map Statement.erase) =
      (Expansion.ofStatements source statements).erase Expansion.erase := by
  simp only [Expansion.ofStatements, Expansion.ofStatements?_erase, source.render_erase]
  cases Expansion.ofStatements? statements <;> rfl

theorem Head.plogAtom_erase (treatment : Treatment) (head : Head) :
    head.erase.plogAtom treatment = (head.plogAtom treatment).erase TheoryAtom.erase := by
  cases head with
  | literal content => simp [Head.plogAtom, Head.erase, Head.origin, Literal.origin_erase]
  | aggregate content =>
      obtain ⟨left, elements, right, origin⟩ := content
      rfl
  | theory remark =>
      show (if remark.name == treatment.name then _ else _) =
        Logged.erase _ (if remark.name == treatment.name then _ else _)
      cases remark.name == treatment.name <;> rfl

theorem ProfiledRule.forbidden_erase (rule : ProfiledRule) :
    rule.erase.forbidden = rule.forbidden.erase Literal.erase := by
  obtain ⟨head, body, weight, treatment, evidence, globals⟩ := rule
  cases evidence with
  | some evidence => rfl
  | none =>
      cases head with
      | literal content => rfl
      | aggregate content =>
          show Logged.fail (.evidence (.unusableHead (Head.aggregate content).erase.render)) _ = _
          rw [Head.render_erase]
          obtain ⟨left, elements, right, origin⟩ := content
          rfl
      | theory content =>
          show Logged.fail (.evidence (.unusableHead (Head.theory content).erase.render)) _ = _
          rw [Head.render_erase]
          rfl

/-- What is done in a turn once origins are erased. The session is the same. -/
def Turn.erase {α β : Type} (change : α → β) (turn : Turn α) : Turn β :=
  ⟨turn.outcome.erase change, turn.session⟩

namespace Encoder

variable {α β γ δ : Type} {session : Session}

theorem lift_erase {change : α → β} {step : Logged α} {step' : Logged β}
    (agrees : step' = step.erase change) :
    (liftM step' : Encoder β) session = Turn.erase change ((liftM step : Encoder α) session) := by
  rw [agrees]
  rfl

theorem lift_bind_erase {first : α → γ} {second : β → δ} {step : Logged α} {step' : Logged γ}
    {next : α → Encoder β} {next' : γ → Encoder δ} (agrees : step' = step.erase first)
    (others : ∀ value, next' (first value) session = (next value session).erase second) :
    (liftM step' >>= next' : Encoder δ) session =
      ((liftM step >>= next : Encoder β) session).erase second := by
  subst agrees
  obtain ⟨result, log⟩ := step
  cases result with
  | error error => rfl
  | ok value =>
      show (⟨⟨(next' (first value) session).outcome.result,
        log ++ (next' (first value) session).outcome.log⟩,
        (next' (first value) session).session⟩ : Turn δ) = _
      rw [others]
      rfl

end Encoder

theorem Rule.isFact_erase (rule : Rule) : rule.erase.IsFact ↔ rule.IsFact := by
  have isTheory : rule.erase.head.isTheory = rule.head.isTheory := rule.head.isTheory_erase
  have body : rule.erase.body = [] ↔ rule.body = [] := List.map_eq_nil_iff
  rw [Rule.IsFact, Rule.IsFact, isTheory, body]

namespace Session

variable {session : Session}

theorem encodePlog_erase (ignores : session.plog.IgnoresOrigins) (source : Rule)
    (treatment : Treatment) (rule : ProfiledRule) :
    session.encodePlog source.erase treatment rule.erase =
      (session.encodePlog source treatment rule).erase (List.map Statement.erase) := by
  apply Logged.bind_erase (rule.head.plogAtom_erase treatment)
  intro remark
  have observed : (do
      if !rule.erase.body.isEmpty then
        Logged.write .warn
          ("ignoring the body of the &" ++ treatment.name ++ " rule " ++ source.erase.render)
      session.plog.observation remark.erase) =
      (do
        if !rule.body.isEmpty then
          Logged.write .warn
            ("ignoring the body of the &" ++ treatment.name ++ " rule " ++ source.render)
        session.plog.observation remark : Logged (List Statement)).erase
          (List.map Statement.erase) := by
    have isEmpty : rule.erase.body.isEmpty = rule.body.isEmpty := List.isEmpty_map
    rw [isEmpty, source.render_erase]
    cases rule.body.isEmpty with
    | true => exact ignores.observation remark
    | false => exact Logged.write_bind_erase _ _ (ignores.observation remark)
  cases treatment with
  | random => exact Logged.write_bind_erase _ _ (ignores.random remark rule.body)
  | probability => exact Logged.write_bind_erase _ _ (ignores.probability remark rule.body)
  | _ => exact observed

theorem encoder_erase (ignores : session.plog.IgnoresOrigins) (source : Rule)
    (rule : ProfiledRule) :
    rule.erase.encoder source.erase session =
      (rule.encoder source session).erase Expansion.erase := by
  have sameTreatment : rule.erase.profile.treatment = rule.profile.treatment := rfl
  have sameWeight : rule.erase.profile.weight.isHard = rule.profile.weight.isHard := rfl
  simp only [ProfiledRule.encoder, Encoder.get_bind, sameTreatment, sameWeight]
  cases rule.profile.treatment with
  | some treatment =>
      cases treatment with
      | query => rfl
      | evidence =>
          apply Encoder.lift_bind_erase rule.forbidden_erase
          intro forbidden
          rw [forbidden.render_erase]
          rfl
      | _ =>
          apply Encoder.lift_bind_erase (session.encodePlog_erase ignores source _ rule)
          intro statements
          exact Encoder.lift_erase (Expansion.ofStatements_erase source statements)
  | none =>
      cases rule.profile.weight.isHard && !session.mode.encodeHard with
      | true => rfl
      | false =>
          apply Encoder.lift_bind_erase (encodeRule_erase _ _ _ rule)
          intro statements
          rw [Encoder.modify_bind, Encoder.modify_bind]
          exact Encoder.lift_erase (Expansion.ofStatements_erase source statements)

theorem encode_erase (ignores : session.plog.IgnoresOrigins) (statement : Statement) :
    session.encode statement.erase = (session.encode statement).erase Expansion.erase := by
  cases statement with
  | rule source =>
      show session.encodeRule source.erase = (session.encodeRule source).erase _
      by_cases fact : source.IsFact
      · rw [encodeRule_of_fact fact, encodeRule_of_fact (source.isFact_erase.mpr fact)]
        rfl
      · rw [encodeRule_of_not_fact fact, encodeRule_of_not_fact (mt source.isFact_erase.mp fact)]
        exact Encoder.lift_bind_erase (source.profile_erase session.mode.power)
          (session.encoder_erase ignores source)
  | weakConstraint content => rfl
  | directive content => rfl

/-- The way in which P-log annotations are encoded stays the same. -/
theorem plog_encode (session : Session) (statement : Statement) :
    (session.encode statement).session.plog = session.plog := by
  show (Call.after ⟨session, statement⟩).plog = session.plog
  rw [Call.after_eq]

def Run.erase (run : Run) : Run where
  output := run.output.erase
  session := run.session
  log := run.log
  error := run.error.map EncodingError.erase

theorem encodeAll_erase (ignores : session.plog.IgnoresOrigins) (program : Program) :
    session.encodeAll program.erase = (session.encodeAll program).erase := by
  induction program generalizing session with
  | nil => rfl
  | cons statement program inductionHypothesis =>
      have step := session.encode_erase ignores statement
      simp only [Program.erase, List.map_cons, encodeAll]
      rw [step]
      cases reached : (session.encode statement).outcome.result with
      | error error => simp only [Turn.erase, Logged.erase_result_eq_error reached, Run.erase]; rfl
      | ok expansion =>
          have rest := inductionHypothesis ((session.plog_encode statement).symm ▸ ignores)
          simp only [Program.erase] at rest
          simp only [Turn.erase, Logged.erase_result_eq_ok reached, rest, Run.erase,
            Expansion.statements_erase, Program.erase, List.map_append]
          rfl

end Session

theorem Program.encode_erase (mode : Mode) (program : Program) :
    program.erase.encode mode = (program.encode mode).erase Program.erase := by
  have run := ({ mode } : Session).encodeAll_erase
    (PlogEncoder.standard_ignoresOrigins mode.power) program
  rw [Program.encode, Program.encode, run]
  cases failed : (({ mode } : Session).encodeAll program).error with
  | some error => simp only [Session.Run.erase, failed]; rfl
  | none => simp only [Session.Run.erase, failed, Program.erase, List.length_map]; rfl

/-- Programs that are the same are encoded alike: either both are refused for the same cause, or
the results are the same and have the same text. -/
theorem Program.encode_of_same (mode : Mode) {first second : Program}
    (same : first.same second = true) :
    (first.encode mode).log = (second.encode mode).log ∧
      match (first.encode mode).result, (second.encode mode).result with
      | .ok target, .ok target' => target.same target' = true ∧ target.render = target'.render
      | .error error, .error error' => error.cause = error'.cause
      | _, _ => False := by
  have alike : (first.encode mode).erase Program.erase =
      (second.encode mode).erase Program.erase := by
    rw [← Program.encode_erase, ← Program.encode_erase, (Program.same_iff first second).mp same]
  have logs := congrArg Logged.log alike
  have results := congrArg Logged.result alike
  refine ⟨logs, ?_⟩
  cases reached : (first.encode mode).result with
  | ok target =>
      cases reached' : (second.encode mode).result with
      | ok target' =>
          rw [Logged.erase_result_eq_ok reached, Logged.erase_result_eq_ok reached'] at results
          have isSame := (Program.same_iff target target').mpr (Except.ok.inj results)
          exact ⟨isSame, Program.render_eq_of_same isSame⟩
      | error error' =>
          rw [Logged.erase_result_eq_ok reached, Logged.erase_result_eq_error reached'] at results
          cases results
  | error error =>
      cases reached' : (second.encode mode).result with
      | ok target' =>
          rw [Logged.erase_result_eq_error reached, Logged.erase_result_eq_ok reached'] at results
          cases results
      | error error' =>
          rw [Logged.erase_result_eq_error reached, Logged.erase_result_eq_error reached']
            at results
          have causes := congrArg EncodingError.cause (Except.error.inj results)
          exact causes

theorem Program.encode_of_same_moved :
    let source (origin : Origin) : Program :=
      [.rule {
        head := .literal { atom := .predicate (.function "a" [.var ⟨"X", origin⟩]), origin }
        body := [.literal { atom := .predicate (.function "b" [.var ⟨"X", origin⟩]), origin }]
        origin }]
    let mode : Mode := { encodeHard := true }
    (source (some ⟨0, 13⟩)).same (source none) = true ∧
      ∃ target target', ((source (some ⟨0, 13⟩)).encode mode).result = .ok target ∧
        ((source none).encode mode).result = .ok target' ∧ target.same target' = true ∧
          target.render = target'.render := by
  intro source mode
  have same : (source (some ⟨0, 13⟩)).same (source none) = true :=
    (Program.same_iff _ _).mpr rfl
  have alike := Program.encode_of_same mode same
  exact ⟨same, _, _, rfl, rfl, alike.2⟩

end SoftRules
