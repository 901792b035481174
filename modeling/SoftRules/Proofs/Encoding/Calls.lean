import SoftRules.Proofs.Encoding.Annotation
import SoftRules.Proofs.Encoding.Faults

/-!
Calls of a session. A session is given statements one after the other. A call that fails leaves the
session as it was (`Call.of_error`), and the next statement can still be tried.

A program that can be encoded is a list of calls none of which fails, and its output is what they
emit (`Program.mem_encode_iff`, `Program.Emits.step`).
-/

set_option autoImplicit false

namespace SoftRules

/-- A statement that is given to a session. -/
structure Call where
  session : Session
  statement : Statement

namespace Call

def turn (call : Call) : Turn Expansion := call.session.encode call.statement

def result (call : Call) : Except EncodingError (Expansion × Session) := call.turn.result

/-- The session that the call leaves, also if it fails. -/
def after (call : Call) : Session := call.turn.session

/-- The statements that take the place of the given one. There are none if the call fails. -/
def emitted (call : Call) : List Statement :=
  match call.turn.outcome.result with
  | .ok expansion => expansion.statements
  | .error _ => []

/-- The call succeeds on a rule that is no fact and whose annotations ask for no treatment. -/
def isIndexed (call : Call) : Bool :=
  match call.statement with
  | .rule source =>
      call.result.isOk && (source.head.isTheory || !source.body.isEmpty) &&
        match (source.profile call.session.mode.power).result with
        | .ok rule => rule.profile.treatment.isNone
        | .error _ => false
  | _ => false

variable {call : Call} {source : Rule}

theorem of_ok {expansion : Expansion} {next : Session} (ok : call.result = .ok (expansion, next)) :
    call.emitted = expansion.statements ∧ call.after = next := by
  obtain ⟨reached, isNext⟩ := Turn.result_eq_ok.mp ok
  exact ⟨by rw [emitted, reached], isNext⟩

/-- A call that fails emits nothing and leaves the session as it was. -/
theorem of_error {error : EncodingError} (failed : call.result = .error error) :
    call.emitted = [] ∧ call.after = call.session := by
  refine ⟨?_, Session.session_of_error failed⟩
  rw [emitted, Turn.result_eq_error.mp failed]

/-- A call that succeeds on a rule is a step of the session. -/
theorem step_of_ok (isRule : call.statement = .rule source) (ok : call.result.isOk = true) :
    call.session.RuleStep source call.emitted call.after := by
  obtain ⟨⟨expansion, next⟩, reached⟩ := Except.exists_eq_ok ok
  rw [(of_ok reached).1, (of_ok reached).2]
  rw [result, turn, isRule] at reached
  exact Session.encodeRule_iff_step.mp reached

theorem of_step {session after : Session} {statements : List Statement}
    (step : session.RuleStep source statements after) :
    (Call.result ⟨session, .rule source⟩).isOk = true ∧
      Call.emitted ⟨session, .rule source⟩ = statements ∧
        Call.after ⟨session, .rule source⟩ = after := by
  obtain ⟨expansion, rfl⟩ := Expansion.exists_statements step.statements_ne_nil
  have reached : Call.result ⟨session, .rule source⟩ = .ok (expansion, after) :=
    Session.encodeRule_iff_step.mpr step
  exact ⟨by rw [reached]; rfl, of_ok reached⟩

theorem of_not_rule (other : call.statement.isRule = false) :
    call.result.isOk = true ∧ call.emitted = [call.statement] ∧ call.after = call.session := by
  have passed : call.result = .ok ({ statement := call.statement }, call.session) := by
    rw [result, turn, Session.encode_other other]
    rfl
  exact ⟨by rw [passed]; rfl, of_ok passed⟩

/-- A call that gets an index keeps the rule or encodes it. -/
theorem indexed_cases (indexed : call.isIndexed = true) :
    ∃ source rule, call.statement = .rule source ∧
      (source.profile call.session.mode.power).result = .ok rule ∧
      rule.profile.treatment = none ∧ call.after = call.session.next ∧
      call.emitted = if rule.profile.weight.isHard && !call.session.mode.encodeHard then
        [.rule source]
      else rule.expansion call.session.mode call.session.index source.origin := by
  unfold isIndexed at indexed
  split at indexed
  · next source isRule =>
      simp only [Bool.and_eq_true] at indexed
      obtain ⟨⟨ok, fresh⟩, untreated⟩ := indexed
      split at untreated
      · next rule profiled =>
          have isNone : rule.profile.treatment = none := Option.isNone_iff_eq_none.mp untreated
          refine ⟨source, rule, isRule, profiled, isNone, ?_⟩
          have step := step_of_ok isRule ok
          generalize call.emitted = statements at step
          generalize call.after = after at step
          cases step with
          | fact fact => simp [fact.1, fact.2] at fresh
          | query _ profiled' treated =>
              cases profiled.symm.trans profiled'
              cases isNone.symm.trans treated
          | evidence _ profiled' treated =>
              cases profiled.symm.trans profiled'
              cases isNone.symm.trans treated
          | plog _ profiled' treated =>
              cases profiled.symm.trans profiled'
              cases isNone.symm.trans treated
          | kept _ profiled' _ hard off =>
              cases profiled.symm.trans profiled'
              exact ⟨rfl, by simp [hard, off]⟩
          | encoded _ profiled' _ on =>
              cases profiled.symm.trans profiled'
              exact ⟨rfl, by simp [Session.not_kept_iff.mpr on]⟩
      · cases untreated
  · cases indexed

/-- All other calls leave the session as it was. -/
theorem after_of_not_indexed (other : call.isIndexed = false) : call.after = call.session := by
  cases isRule : call.statement with
  | weakConstraint content => exact (of_not_rule (by rw [isRule]; rfl)).2.2
  | directive content => exact (of_not_rule (by rw [isRule]; rfl)).2.2
  | rule source =>
      cases reached : call.result with
      | error error => exact (of_error reached).2
      | ok outcome =>
          have ok : call.result.isOk = true := by rw [reached]; rfl
          have step := step_of_ok isRule ok
          simp only [isIndexed, isRule, ok, Bool.true_and] at other
          generalize call.emitted = statements at step
          generalize call.after = after at step
          have treated {rule : ProfiledRule} (fresh : ¬ source.IsFact)
              (profiled : (source.profile call.session.mode.power).result = .ok rule) :
              rule.profile.treatment ≠ none := by
            intro untreated
            apply fresh
            simpa [profiled, untreated, Rule.IsFact] using other
          cases step with
          | fact => rfl
          | query => rfl
          | evidence => rfl
          | plog => rfl
          | kept fresh profiled untreated => exact absurd untreated (treated fresh profiled)
          | encoded fresh profiled untreated => exact absurd untreated (treated fresh profiled)

/-- A call changes nothing of a session but its index, which goes up by one if it is used. -/
theorem after_eq (call : Call) :
    call.after = { call.session with
      index := call.session.index + if call.isIndexed then 1 else 0 } := by
  cases indexed : call.isIndexed with
  | true =>
      obtain ⟨source, rule, _, _, _, next, _⟩ := indexed_cases indexed
      exact next
  | false => exact after_of_not_indexed indexed

end Call

namespace Session

/-- The calls that a session gets for a list of statements. -/
def calls : Session → List Statement → List Call
  | _, [] => []
  | session, statement :: statements =>
      ⟨session, statement⟩ :: (Call.after ⟨session, statement⟩).calls statements

/-- The session after all of the statements. -/
def afterAll : Session → List Statement → Session
  | session, [] => session
  | session, statement :: statements => (Call.after ⟨session, statement⟩).afterAll statements

variable {session : Session} {statements : List Statement}

/-- The index counts the calls to which one was given. -/
theorem afterAll_index :
    (session.afterAll statements).index =
      session.index + (session.calls statements).countP Call.isIndexed := by
  induction statements generalizing session with
  | nil => rfl
  | cons statement statements inductionHypothesis =>
      rw [afterAll, inductionHypothesis, calls, List.countP_cons, Call.after_eq]
      simp only
      omega

/-- The sessions of later calls differ in their index only, which never goes down. -/
theorem calls_session {call : Call} (member : call ∈ session.calls statements) :
    call.session = { session with index := call.session.index } ∧
      session.index ≤ call.session.index := by
  induction statements generalizing session with
  | nil => cases member
  | cons statement statements inductionHypothesis =>
      rcases List.mem_cons.mp member with rfl | later
      · exact ⟨rfl, Nat.le_refl _⟩
      · obtain ⟨same, le⟩ := inductionHypothesis later
        rw [Call.after_eq] at same le
        exact ⟨same, Nat.le_trans (Nat.le_add_right _ _) le⟩

/-- There is one call for each statement. -/
theorem map_statement_calls : (session.calls statements).map Call.statement = statements := by
  induction statements generalizing session with
  | nil => rfl
  | cons statement statements inductionHypothesis =>
      rw [calls, List.map_cons, inductionHypothesis]

theorem statement_mem_of_calls {call : Call} (member : call ∈ session.calls statements) :
    call.statement ∈ statements := by
  rw [← @map_statement_calls session statements]
  exact List.mem_map_of_mem member

/-- A run without an error is a list of calls that succeed. -/
theorem Steps.calls {program output : Program} {after : Session}
    (steps : session.Steps program output after) :
    output = (session.calls program).flatMap Call.emitted ∧
      ∀ call ∈ session.calls program, call.result.isOk = true := by
  induction steps with
  | nil session => exact ⟨rfl, by simp [Session.calls]⟩
  | @rule session middle after source program rest statements step others inductionHypothesis =>
      obtain ⟨isRest, succeed⟩ := inductionHypothesis
      obtain ⟨ok, emitted, next⟩ := Call.of_step step
      rw [Session.calls, next]
      exact ⟨by rw [List.flatMap_cons, emitted, isRest], List.forall_mem_cons.mpr ⟨ok, succeed⟩⟩
  | @other session after statement program rest other others inductionHypothesis =>
      obtain ⟨isRest, succeed⟩ := inductionHypothesis
      obtain ⟨ok, emitted, next⟩ := @Call.of_not_rule ⟨session, statement⟩ other
      rw [Session.calls, next]
      exact ⟨by rw [List.flatMap_cons, emitted, isRest]; rfl,
        List.forall_mem_cons.mpr ⟨ok, succeed⟩⟩

end Session

namespace Program

/-- The statement takes the place of the rule, or a place in front of it, when the program is
encoded. -/
def Emits (mode : Mode) (program : Program) (source : Rule) (statement : Statement) : Prop :=
  ∃ call ∈ ({ mode } : Session).calls program, call.statement = .rule source ∧
    statement ∈ call.emitted

variable {mode : Mode} {program target : Program} {source : Rule}

theorem exists_call (mode : Mode) {statement : Statement} (member : statement ∈ program) :
    ∃ call ∈ ({ mode } : Session).calls program, call.statement = statement := by
  rw [← @Session.map_statement_calls { mode } program] at member
  exact List.mem_map.mp member

/-- The output consists of what is emitted for the rules and of all other statements. -/
theorem mem_encode_iff {statement : Statement}
    (encoded : (program.encode mode).result = .ok target) :
    statement ∈ target ↔ (∃ source, program.Emits mode source statement) ∨
      (statement ∈ program ∧ statement.isRule = false) := by
  obtain ⟨after, steps⟩ := Program.encode_ok_iff.mp encoded
  rw [steps.calls.1, List.mem_flatMap]
  constructor
  · rintro ⟨call, isCall, member⟩
    cases isRule : call.statement.isRule with
    | true =>
        obtain ⟨source, isSource⟩ : ∃ source, call.statement = .rule source := by
          cases given : call.statement with
          | rule source => exact ⟨source, rfl⟩
          | _ => simp [given, Statement.isRule] at isRule
        exact .inl ⟨source, call, isCall, isSource, member⟩
    | false =>
        rw [(Call.of_not_rule isRule).2.1, List.mem_singleton] at member
        exact .inr (member ▸ ⟨Session.statement_mem_of_calls isCall, isRule⟩)
  · rintro (⟨source, call, isCall, -, member⟩ | ⟨member, isRule⟩)
    · exact ⟨call, isCall, member⟩
    · obtain ⟨call, isCall, rfl⟩ := exists_call mode member
      refine ⟨call, isCall, ?_⟩
      rw [(Call.of_not_rule isRule).2.1]
      exact List.mem_singleton.mpr rfl

/-- What is emitted comes from a step of a session with the given mode. -/
theorem Emits.step {statement : Statement} (emits : program.Emits mode source statement) :
    .rule source ∈ program ∧
      ∃ (session : Session) (statements : List Statement) (after : Session),
        session.mode = mode ∧ session.plog = .standard mode.power ∧
          session.RuleStep source statements after ∧ statement ∈ statements := by
  obtain ⟨call, isCall, isRule, member⟩ := emits
  refine ⟨isRule ▸ Session.statement_mem_of_calls isCall, ?_⟩
  obtain ⟨same, -⟩ := Session.calls_session isCall
  have ok : call.result.isOk = true := by
    cases reached : call.result with
    | error error =>
        rw [(Call.of_error reached).1] at member
        cases member
    | ok outcome => rfl
  exact ⟨call.session, call.emitted, call.after, by rw [same], by rw [same],
    Call.step_of_ok isRule ok, member⟩

/-- All that a step for a rule of an encoded program gives is emitted. -/
theorem exists_step (encoded : (program.encode mode).result = .ok target)
    (member : .rule source ∈ program) :
    ∃ (session : Session) (statements : List Statement) (after : Session),
      session.mode = mode ∧ session.plog = .standard mode.power ∧
        session.RuleStep source statements after ∧
          ∀ statement ∈ statements, program.Emits mode source statement := by
  obtain ⟨after, steps⟩ := Program.encode_ok_iff.mp encoded
  obtain ⟨call, isCall, isRule⟩ := exists_call mode member
  obtain ⟨same, -⟩ := Session.calls_session isCall
  exact ⟨call.session, call.emitted, call.after, by rw [same], by rw [same],
    Call.step_of_ok isRule (steps.calls.2 call isCall),
    fun statement member => ⟨call, isCall, isRule, member⟩⟩

end Program

end SoftRules
