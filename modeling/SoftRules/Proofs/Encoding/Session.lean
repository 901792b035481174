import SoftRules.Encoding.Session
import SoftRules.Proofs.Encoding.Profile

/-!
The steps of a session. `Session.RuleStep` says all that can become of a rule, and `Session.Steps`
chains such steps over a program; both hold exactly of the runs that succeed.
-/

set_option autoImplicit false

namespace SoftRules

namespace Turn

variable {α : Type} {turn : Turn α}

theorem result_eq_ok {value : α} {after : Session} :
    turn.result = .ok (value, after) ↔ turn.outcome.result = .ok value ∧ turn.session = after := by
  rw [result]
  cases turn.outcome.result with
  | ok other => simp
  | error error => simp

theorem result_eq_error {error : EncodingError} :
    turn.result = .error error ↔ turn.outcome.result = .error error := by
  rw [result]
  cases turn.outcome.result with
  | ok value => simp
  | error other => simp

end Turn

namespace Encoder

variable {α β : Type} (session : Session)

@[simp] theorem result_pure (value : α) :
    ((pure value : Encoder α) session).result = .ok (value, session) := rfl

@[simp] theorem result_lift (step : Logged α) :
    ((liftM step : Encoder α) session).result = (·, session) <$> step.result := rfl

@[simp] theorem session_lift (step : Logged α) :
    ((liftM step : Encoder α) session).session = session := rfl

@[simp] theorem get_bind (next : Session → Encoder β) :
    (get >>= next) session = next session session := rfl

@[simp] theorem modify_bind (change : Session → Session) (next : PUnit → Encoder β) :
    (modify change >>= next) session = next () (change session) := rfl

-- What was done before a failure stays done.
example (cause : EncodingError.Cause) (origin : Origin) :
    ((do modify Session.next; Logged.fail cause origin : Encoder Unit) session).session =
      session.next := rfl

@[simp] theorem result_lift_bind (step : Logged α) (next : α → Encoder β) :
    ((liftM step >>= next : Encoder β) session).result =
      step.result >>= fun value => (next value session).result := by
  obtain ⟨result, log⟩ := step
  cases result <;> rfl

/-- Steps that only write and fail leave the session as it is. -/
@[simp] theorem session_lift_bind (step : Logged α) (next : α → Encoder β) :
    ((liftM step >>= next : Encoder β) session).session =
      match step.result with
      | .ok value => (next value session).session
      | .error _ => session := by
  obtain ⟨result, log⟩ := step
  cases result <;> rfl

variable {session} {step : Logged α} {next : α → Encoder β}

theorem lift_bind_eq_ok {reached : β × Session} :
    ((liftM step >>= next : Encoder β) session).result = .ok reached ↔
      ∃ value, step.result = .ok value ∧ (next value session).result = .ok reached := by
  rw [result_lift_bind, Except.bind_eq_ok]

theorem lift_bind_eq_error {error : EncodingError} :
    ((liftM step >>= next : Encoder β) session).result = .error error ↔
      step.result = .error error ∨
        ∃ value, step.result = .ok value ∧ (next value session).result = .error error := by
  rw [result_lift_bind, Except.bind_eq_error]

end Encoder

/-- The statements that take the place of a rule without annotations in its head. -/
def ProfiledRule.expansion (mode : Mode) (index : Nat) (origin : Origin) (rule : ProfiledRule) :
    List Statement :=
  let penalty := Penalty.ofProfile index rule.profile
  match rule.head.negation? with
  | none => [.rule { head := rule.head, body := rule.body, origin }]
  | some notHead =>
      if mode.markViolations then markedEncoding penalty origin rule.head notHead rule.body
      else choiceEncoding mode penalty origin rule.head notHead rule.body

theorem ProfiledRule.expansion_ne_nil (mode : Mode) (index : Nat) (origin : Origin)
    (rule : ProfiledRule) : rule.expansion mode index origin ≠ [] := by
  unfold ProfiledRule.expansion
  cases rule.head.negation? with
  | none => simp
  | some notHead =>
      by_cases marked : mode.markViolations
      · simp [marked, markedEncoding]
      · simp only [marked, Bool.false_eq_true, if_false, choiceEncoding]
        cases rule.head.choice? <;> simp

/-- What each statement in the place of a rule can be. The switch might stand in front of the body
of a penalty. -/
inductive ProfiledRule.Emits (mode : Mode) (index : Nat) (origin : Origin) (rule : ProfiledRule) :
    Statement → Prop
  | kept (unguarded : rule.head.negation? = none) :
      Emits mode index origin rule (.rule { head := rule.head, body := rule.body, origin })
  | violation {notHead : Literal} (negation : rule.head.negation? = some notHead)
      (marked : mode.markViolations = true) :
      Emits mode index origin rule (.rule {
        head := .literal (.positive (Penalty.ofProfile index rule.profile).violation notHead.origin)
        body := .literal notHead :: rule.body
        origin })
  | unviolated {notHead : Literal} (negation : rule.head.negation? = some notHead)
      (marked : mode.markViolations = true) :
      Emits mode index origin rule (.rule {
        head := rule.head
        body := .literal (.negative (Penalty.ofProfile index rule.profile).violation
          notHead.origin) :: rule.body
        origin })
  | markPenalty {notHead : Literal} (negation : rule.head.negation? = some notHead)
      (marked : mode.markViolations = true) :
      Emits mode index origin rule ((Penalty.ofProfile index rule.profile).weakConstraint
        [.literal (.positive (Penalty.ofProfile index rule.profile).violation notHead.origin)]
        origin)
  | choice {choice : Aggregate Literal} (open' : rule.head.choice? = some choice)
      (compact : mode.markViolations = false) :
      Emits mode index origin rule (.rule { head := .aggregate choice, body := rule.body, origin })
  | penalty {notHead : Literal} {switch : List BodyElement}
      (negation : rule.head.negation? = some notHead) (compact : mode.markViolations = false)
      (isSwitch : ∀ element ∈ switch, element = .literal (switchLiteral rule.head.origin)) :
      Emits mode index origin rule ((Penalty.ofProfile index rule.profile).weakConstraint
        (switch ++ .literal notHead :: rule.body) origin)
  | closedPenalty {notHead : Literal} {switch : List BodyElement}
      (negation : rule.head.negation? = some notHead) (closed : rule.head.choice? = none)
      (compact : mode.markViolations = false)
      (isSwitch : ∀ element ∈ switch, element = .literal (switchLiteral rule.head.origin)) :
      Emits mode index origin rule ((Penalty.ofProfile index rule.profile).weakConstraint
        (switch ++ rule.body) origin)

theorem ProfiledRule.emits_of_mem {mode : Mode} {index : Nat} {origin : Origin}
    {rule : ProfiledRule} {statement : Statement}
    (member : statement ∈ rule.expansion mode index origin) :
    rule.Emits mode index origin statement := by
  unfold ProfiledRule.expansion at member
  cases negation : rule.head.negation? with
  | none =>
      simp only [negation, List.mem_singleton] at member
      rw [member]
      exact .kept negation
  | some notHead =>
      simp only [negation] at member
      cases marked : mode.markViolations with
      | true =>
          simp only [marked, if_true, markedEncoding, List.mem_cons, List.not_mem_nil,
            or_false] at member
          rcases member with rfl | rfl | rfl
          · exact .violation negation marked
          · exact .unviolated negation marked
          · exact .markPenalty negation marked
      | false =>
          simp only [marked, Bool.false_eq_true, if_false, choiceEncoding] at member
          generalize isSwitch : (if mode.switchPenalties &&
              (Penalty.ofProfile index rule.profile).priority == 0 then
            [BodyElement.literal (switchLiteral rule.head.origin)] else []) = switch at member
          have inSwitch : ∀ element ∈ switch,
              element = .literal (switchLiteral rule.head.origin) := by
            rw [← isSwitch]
            split
            · exact List.forall_mem_singleton.mpr rfl
            · simp
          cases open' : rule.head.choice? with
          | none =>
              simp only [open', List.mem_singleton] at member
              rw [member]
              exact .closedPenalty negation open' marked inSwitch
          | some choice =>
              simp only [open', List.mem_cons, List.not_mem_nil, or_false] at member
              rcases member with rfl | rfl
              · exact .choice open' marked
              · exact .penalty negation marked inSwitch

theorem encodeRule_ok_iff {mode : Mode} {index : Nat} {origin : Origin} {rule : ProfiledRule}
    {statements : List Statement} :
    (encodeRule mode index origin rule).result = .ok statements ↔
      rule.head.isTheory = false ∧ statements = rule.expansion mode index origin := by
  obtain ⟨head, body, profile⟩ := rule
  unfold encodeRule ProfiledRule.expansion
  cases head with
  | theory remark => simp [Head.isTheory]
  | literal content =>
      by_cases marked : mode.markViolations
      · simp [Head.negation?, Head.isTheory, marked, eq_comm]
      · simp [Head.negation?, Head.isTheory, marked, eq_comm]
  | aggregate content =>
      by_cases guarded : content.isGuarded
      · by_cases marked : mode.markViolations
        · simp [Head.negation?, Head.isTheory, guarded, marked, eq_comm]
        · simp [Head.negation?, Head.isTheory, guarded, marked, eq_comm]
      · simp [Head.negation?, Head.isTheory, guarded, eq_comm]

namespace Expansion

theorem statements_ne_nil (expansion : Expansion) : expansion.statements ≠ [] := by
  simp [statements]

theorem ofStatements?_statements (expansion : Expansion) :
    ofStatements? expansion.statements = some expansion := by
  simp [ofStatements?, statements]

theorem ofStatements?_eq_some {list : List Statement} {expansion : Expansion}
    (split : ofStatements? list = some expansion) : expansion.statements = list := by
  simp only [ofStatements?, Option.map_eq_some_iff] at split
  obtain ⟨last, isLast, rfl⟩ := split
  obtain ⟨others, rfl⟩ := List.getLast?_eq_some_iff.mp isLast
  simp [statements]

theorem exists_statements {list : List Statement} (nonempty : list ≠ []) :
    ∃ expansion : Expansion, expansion.statements = list :=
  ⟨⟨list.dropLast, list.getLast nonempty⟩, List.dropLast_concat_getLast nonempty⟩

theorem eq_of_singleton {expansion : Expansion} {statement : Statement}
    (single : expansion.statements = [statement]) : expansion = { statement } := by
  have split := ofStatements?_statements expansion
  rw [single] at split
  exact (Option.some.inj split).symm

variable {source : Rule} {list : List Statement}

theorem ofStatements_eq_ok {expansion : Expansion} :
    (ofStatements source list).result = .ok expansion ↔ expansion.statements = list := by
  constructor
  · intro ok
    rw [ofStatements] at ok
    split at ok
    · next split =>
        cases ok
        exact ofStatements?_eq_some split
    · cases ok
  · rintro rfl
    rw [ofStatements, ofStatements?_statements]
    rfl

/-- Statements make up no expansion only if there are none. -/
theorem ofStatements_eq_error {error : EncodingError} :
    (ofStatements source list).result = .error error ↔
      list = [] ∧ error = ⟨.plog (.noStatements source.render), source.origin⟩ := by
  by_cases empty : list = []
  · simp [empty, ofStatements, ofStatements?, eq_comm]
  · obtain ⟨expansion, isList⟩ := exists_statements empty
    rw [ofStatements_eq_ok.mpr isList]
    simp [empty]

end Expansion

/-- Facts without annotations are not looked into. -/
def Rule.IsFact (rule : Rule) : Prop := rule.head.isTheory = false ∧ rule.body = []

namespace Session

/-- What can become of a rule, and the session after it. -/
inductive RuleStep (session : Session) (source : Rule) : List Statement → Session → Prop
  | fact (fact : source.IsFact) : RuleStep session source [.rule source] session
  | query {rule : ProfiledRule} (fresh : ¬ source.IsFact)
      (profiled : (source.profile session.mode.power).result = .ok rule)
      (treated : rule.profile.treatment = some .query) :
      RuleStep session source [.rule source] session
  | evidence {rule : ProfiledRule} {forbidden : Literal} (fresh : ¬ source.IsFact)
      (profiled : (source.profile session.mode.power).result = .ok rule)
      (treated : rule.profile.treatment = some .evidence)
      (forbids : rule.forbidden.result = .ok forbidden) :
      RuleStep session source [.rule (.constraint [.literal forbidden] source.origin)] session
  | plog {rule : ProfiledRule} {treatment : Treatment} {statements : List Statement}
      (fresh : ¬ source.IsFact)
      (profiled : (source.profile session.mode.power).result = .ok rule)
      (treated : rule.profile.treatment = some treatment)
      (special : treatment ≠ .query ∧ treatment ≠ .evidence)
      (converted : (session.encodePlog source treatment rule).result = .ok statements)
      (nonempty : statements ≠ []) : RuleStep session source statements session
  | kept {rule : ProfiledRule} (fresh : ¬ source.IsFact)
      (profiled : (source.profile session.mode.power).result = .ok rule)
      (untreated : rule.profile.treatment = none) (hard : rule.profile.weight.isHard = true)
      (off : session.mode.encodeHard = false) :
      RuleStep session source [.rule source] session.next
  | encoded {rule : ProfiledRule} (fresh : ¬ source.IsFact)
      (profiled : (source.profile session.mode.power).result = .ok rule)
      (untreated : rule.profile.treatment = none)
      (on : rule.profile.weight.isHard = false ∨ session.mode.encodeHard = true)
      (plain : rule.head.isTheory = false) :
      RuleStep session source (rule.expansion session.mode session.index source.origin)
        session.next

variable {session after : Session} {source : Rule}

/-- A rule without treatments is encoded, unless it is hard and hard rules are kept. -/
theorem not_kept_iff {mode : Mode} {rule : ProfiledRule} :
    (rule.profile.weight.isHard && !mode.encodeHard) = false ↔
      rule.profile.weight.isHard = false ∨ mode.encodeHard = true := by
  rw [Bool.and_eq_false_iff, Bool.not_eq_false']

theorem encodeRule_of_fact (fact : source.IsFact) :
    session.encodeRule source = ⟨pure { statement := .rule source }, session⟩ := by
  rw [encodeRule, Rule.encoder, if_pos (by simp [fact.1, fact.2])]
  rfl

theorem encodeRule_of_not_fact (fresh : ¬ source.IsFact) :
    session.encodeRule source =
      (liftM (source.profile session.mode.power) >>= fun rule => rule.encoder source) session := by
  rw [encodeRule, Rule.encoder, if_neg]
  · rfl
  · intro facts
    simp only [Bool.and_eq_true, Bool.not_eq_true', List.isEmpty_iff] at facts
    exact fresh facts

theorem encoder_of_special {rule : ProfiledRule} {treatment : Treatment}
    (treated : rule.profile.treatment = some treatment)
    (special : treatment ≠ .query ∧ treatment ≠ .evidence) :
    rule.encoder source session = (do
      let statements ← session.encodePlog source treatment rule
      Expansion.ofStatements source statements : Encoder Expansion) session := by
  rw [ProfiledRule.encoder, Encoder.get_bind, treated]
  cases treatment with
  | query => exact absurd rfl special.1
  | evidence => exact absurd rfl special.2
  | _ => rfl

theorem encoder_of_untreated {rule : ProfiledRule} (untreated : rule.profile.treatment = none)
    (on : rule.profile.weight.isHard = false ∨ session.mode.encodeHard = true) :
    rule.encoder source session = (do
      let statements ← SoftRules.encodeRule session.mode session.index source.origin rule
      modify Session.next
      Expansion.ofStatements source statements : Encoder Expansion) session := by
  simp only [ProfiledRule.encoder, Encoder.get_bind, untreated]
  rw [if_neg (Bool.eq_false_iff.mp (not_kept_iff.mpr on))]

/-- A step that needed the profile of the rule. -/
theorem step_of_encoder {rule : ProfiledRule} {expansion : Expansion}
    (fresh : ¬ source.IsFact) (profiled : (source.profile session.mode.power).result = .ok rule)
    (ok : (rule.encoder source session).result = .ok (expansion, after)) :
    session.RuleStep source expansion.statements after := by
  rw [ProfiledRule.encoder, Encoder.get_bind] at ok
  cases treated : rule.profile.treatment with
  | some treatment =>
      simp only [treated] at ok
      cases treatment with
      | query =>
          cases ok
          exact .query fresh profiled treated
      | evidence =>
          obtain ⟨forbidden, forbids, ok⟩ := Encoder.lift_bind_eq_ok.mp ok
          cases ok
          exact .evidence fresh profiled treated forbids
      | _ =>
          obtain ⟨statements, converted, ok⟩ := Encoder.lift_bind_eq_ok.mp ok
          obtain ⟨split, rfl⟩ := Turn.result_eq_ok.mp ok
          cases Expansion.ofStatements_eq_ok.mp split
          exact .plog fresh profiled treated (by decide) converted expansion.statements_ne_nil
  | none =>
      simp only [treated] at ok
      cases kept : rule.profile.weight.isHard && !session.mode.encodeHard with
      | true =>
          rw [if_pos kept] at ok
          cases ok
          simp only [Bool.and_eq_true, Bool.not_eq_true'] at kept
          exact .kept fresh profiled treated kept.1 kept.2
      | false =>
          rw [if_neg (Bool.eq_false_iff.mp kept)] at ok
          obtain ⟨statements, converted, ok⟩ := Encoder.lift_bind_eq_ok.mp ok
          obtain ⟨plain, rfl⟩ := encodeRule_ok_iff.mp converted
          rw [Encoder.modify_bind] at ok
          obtain ⟨split, rfl⟩ := Turn.result_eq_ok.mp ok
          rw [Expansion.ofStatements_eq_ok.mp split]
          exact .encoded fresh profiled treated (not_kept_iff.mp kept) plain

theorem encoder_of_step {rule : ProfiledRule} {expansion : Expansion}
    (fresh : ¬ source.IsFact) (profiled : (source.profile session.mode.power).result = .ok rule)
    (step : session.RuleStep source expansion.statements after) :
    (rule.encoder source session).result = .ok (expansion, after) := by
  generalize isExpansion : expansion.statements = statements at step
  cases step with
  | fact fact => exact absurd fact fresh
  | query _ profiled' treated =>
      cases profiled.symm.trans profiled'
      rw [Expansion.eq_of_singleton isExpansion]
      simp [ProfiledRule.encoder, treated]
  | evidence _ profiled' treated forbids =>
      cases profiled.symm.trans profiled'
      rw [Expansion.eq_of_singleton isExpansion]
      simp [ProfiledRule.encoder, treated, forbids]
  | plog _ profiled' treated special converted nonempty =>
      cases profiled.symm.trans profiled'
      have split := (@Expansion.ofStatements_eq_ok source _ _).mpr isExpansion
      simp [encoder_of_special treated special, converted, split]
  | kept _ profiled' untreated hard off =>
      cases profiled.symm.trans profiled'
      rw [Expansion.eq_of_singleton isExpansion]
      simp [ProfiledRule.encoder, untreated, hard, off]
  | encoded _ profiled' untreated on plain =>
      cases profiled.symm.trans profiled'
      have split := (@Expansion.ofStatements_eq_ok source _ _).mpr isExpansion
      have converted := encodeRule_ok_iff.mpr (⟨plain, rfl⟩ :
        rule.head.isTheory = false ∧
          rule.expansion session.mode session.index source.origin = _)
      simp [encoder_of_untreated untreated on, converted, split]

theorem RuleStep.profile_ok {statements : List Statement} (fresh : ¬ source.IsFact)
    (step : session.RuleStep source statements after) :
    ∃ rule, (source.profile session.mode.power).result = .ok rule := by
  cases step with
  | fact fact => exact absurd fact fresh
  | query _ profiled => exact ⟨_, profiled⟩
  | evidence _ profiled => exact ⟨_, profiled⟩
  | plog _ profiled => exact ⟨_, profiled⟩
  | kept _ profiled => exact ⟨_, profiled⟩
  | encoded _ profiled => exact ⟨_, profiled⟩

theorem RuleStep.of_fact {statements : List Statement} (fact : source.IsFact)
    (step : session.RuleStep source statements after) :
    statements = [.rule source] ∧ after = session := by
  cases step with
  | fact => exact ⟨rfl, rfl⟩
  | query fresh => exact absurd fact fresh
  | evidence fresh => exact absurd fact fresh
  | plog fresh => exact absurd fact fresh
  | kept fresh => exact absurd fact fresh
  | encoded fresh => exact absurd fact fresh

theorem RuleStep.statements_ne_nil {statements : List Statement}
    (step : session.RuleStep source statements after) : statements ≠ [] := by
  cases step with
  | fact => simp
  | query => simp
  | evidence => simp
  | plog _ _ _ _ _ nonempty => exact nonempty
  | kept => simp
  | encoded => exact ProfiledRule.expansion_ne_nil _ _ _ _

/-- The encoding of a rule succeeds exactly with the results of its steps. -/
theorem encodeRule_iff_step {expansion : Expansion} :
    (session.encodeRule source).result = .ok (expansion, after) ↔
      session.RuleStep source expansion.statements after := by
  by_cases fact : source.IsFact
  · rw [encodeRule_of_fact fact]
    constructor
    · intro ok
      cases ok
      exact .fact fact
    · intro step
      obtain ⟨kept, rfl⟩ := step.of_fact fact
      rw [Expansion.eq_of_singleton kept]
      rfl
  · rw [encodeRule_of_not_fact fact, Encoder.lift_bind_eq_ok]
    constructor
    · rintro ⟨rule, profiled, ok⟩
      exact step_of_encoder fact profiled ok
    · intro step
      obtain ⟨rule, profiled⟩ := step.profile_ok fact
      exact ⟨rule, profiled, encoder_of_step fact profiled step⟩

/-- The steps of a session over a program. -/
inductive Steps : Session → Program → Program → Session → Prop
  | nil (session : Session) : Steps session [] [] session
  | rule {session middle after : Session} {source : Rule} {program rest : Program}
      {statements : List Statement} (step : session.RuleStep source statements middle)
      (others : Steps middle program rest after) :
      Steps session (.rule source :: program) (statements ++ rest) after
  | other {session after : Session} {statement : Statement} {program rest : Program}
      (other : statement.isRule = false) (others : Steps session program rest after) :
      Steps session (statement :: program) (statement :: rest) after

theorem encode_other {statement : Statement} (other : statement.isRule = false) :
    session.encode statement = ⟨pure { statement }, session⟩ := by
  cases statement with
  | rule content => cases other
  | weakConstraint content => rfl
  | directive content => rfl

theorem encodeAll_steps {program : Program} (ok : (session.encodeAll program).error = none) :
    session.Steps program (session.encodeAll program).output
      (session.encodeAll program).session := by
  induction program generalizing session with
  | nil => exact .nil session
  | cons statement program inductionHypothesis =>
      cases reached : (session.encode statement).outcome.result with
      | error error => simp [encodeAll, reached] at ok
      | ok expansion =>
          simp only [encodeAll, reached] at ok ⊢
          cases statement with
          | rule source =>
              have step := encodeRule_iff_step.mp (Turn.result_eq_ok.mpr ⟨reached, rfl⟩)
              exact .rule step (inductionHypothesis ok)
          | weakConstraint content =>
              cases reached
              exact .other rfl (inductionHypothesis ok)
          | directive content =>
              cases reached
              exact .other rfl (inductionHypothesis ok)

theorem encodeAll_of_steps {program output : Program} (steps : session.Steps program output after) :
    (session.encodeAll program).error = none ∧ (session.encodeAll program).output = output ∧
      (session.encodeAll program).session = after := by
  induction steps with
  | nil session => exact ⟨rfl, rfl, rfl⟩
  | @rule session middle after source program rest statements step others inductionHypothesis =>
      obtain ⟨expansion, rfl⟩ := Expansion.exists_statements step.statements_ne_nil
      obtain ⟨reached, next⟩ := Turn.result_eq_ok.mp (encodeRule_iff_step.mpr step)
      simp [encodeAll, encode, reached, next, inductionHypothesis]
  | @other session after statement program rest other others inductionHypothesis =>
      simp [encodeAll, encode_other other, inductionHypothesis, Expansion.statements]

end Session

theorem Program.encode_ok_iff_encodeAll {mode : Mode} {source target : Program} :
    (source.encode mode).result = .ok target ↔
      (({ mode } : Session).encodeAll source).error = none ∧
        (({ mode } : Session).encodeAll source).output = target := by
  unfold Program.encode
  cases failed : (({ mode } : Session).encodeAll source).error with
  | some error => simp [failed]
  | none => simp [failed]

/-- A program can be encoded exactly if a session can take a step at each statement. -/
theorem Program.encode_ok_iff {mode : Mode} {source target : Program} :
    (source.encode mode).result = .ok target ↔
      ∃ after, ({ mode } : Session).Steps source target after := by
  rw [encode_ok_iff_encodeAll]
  constructor
  · rintro ⟨succeeded, rfl⟩
    exact ⟨_, Session.encodeAll_steps succeeded⟩
  · rintro ⟨after, steps⟩
    obtain ⟨succeeded, output, _⟩ := Session.encodeAll_of_steps steps
    exact ⟨succeeded, output⟩

end SoftRules
