import SoftRules.Proofs.Encoding.Requests

/-!
The index of a session shows in its output at fixed places only.

A sketch is a statement of an output in which the index of the rule is left open, in the key of the
penalty and in the atom for a violation. What becomes of a statement is a list of sketches that does
not depend on the index of the session, filled with that index (`Call.emitted_eq`). A session that
starts at a larger index therefore encodes a program in the same way, or fails at the same place.

Sessions compose as well: nothing but the index is handed on from one statement to the next
(`Session.encodeAll_append`).
-/

set_option autoImplicit false

namespace SoftRules

/-- A statement of the output in which the index of the rule is left open. -/
inductive Sketch where
  /-- A statement without an index. -/
  | fixed (content : Statement)
  /-- `unsat(·,mark,globals) :- body.` -/
  | marking (mark globals : Term) (place : Origin) (body : List BodyElement) (origin : Origin)
  /-- `head :- not unsat(·,mark,globals), body.` -/
  | unmarked (mark globals : Term) (place : Origin) (head : Head) (body : List BodyElement)
      (origin : Origin)
  /-- `:~ unsat(·,mark,globals). [weight@priority,·,globals]` -/
  | markPenalty (mark globals : Term) (place : Origin) (weight priority : Term) (origin : Origin)
  /-- `:~ body. [weight@priority,·,globals]` -/
  | penalty (globals : Term) (body : List BodyElement) (weight priority : Term) (origin : Origin)

namespace Sketch

def violation (index : Nat) (mark globals : Term) : Atom Literal :=
  .predicate (.function "unsat" [.number index, mark, globals])

def fill (index : Nat) : Sketch → Statement
  | fixed content => content
  | marking mark globals place body origin =>
      .rule { head := .literal (.positive (violation index mark globals) place), body, origin }
  | unmarked mark globals place head body origin =>
      .rule {
        head
        body := .literal (.negative (violation index mark globals) place) :: body
        origin }
  | markPenalty mark globals place weight priority origin =>
      .weakConstraint {
        body := [.literal (.positive (violation index mark globals) place)]
        weight
        priority
        terms := [.number index, globals]
        origin }
  | penalty globals body weight priority origin =>
      .weakConstraint { body, weight, priority, terms := [.number index, globals], origin }

end Sketch

/-- The encoding of a rule with the index left open. -/
def ProfiledRule.sketches (mode : Mode) (origin : Origin) (rule : ProfiledRule) : List Sketch :=
  let globals := Term.tuple (rule.profile.globals.map .var)
  let (mark, weight, priority) :=
    match rule.profile.weight with
    | .hard => (Term.text "alpha", Term.number 1, 1)
    | .soft weight => (weight.toTerm, weight.toTerm, 0)
  match rule.head.negation? with
  | none => [.fixed (.rule { head := rule.head, body := rule.body, origin })]
  | some notHead =>
      if mode.markViolations then
        [.marking mark globals notHead.origin (.literal notHead :: rule.body) origin,
          .unmarked mark globals notHead.origin rule.head rule.body origin,
          .markPenalty mark globals notHead.origin weight (.number priority) origin]
      else
        let switch :=
          if mode.switchPenalties && priority == 0 then
            [BodyElement.literal (switchLiteral rule.head.origin)]
          else []
        match rule.head.choice? with
        | some choice =>
            [.fixed (.rule { head := .aggregate choice, body := rule.body, origin }),
              .penalty globals (switch ++ .literal notHead :: rule.body) weight (.number priority)
                origin]
        | none => [.penalty globals (switch ++ rule.body) weight (.number priority) origin]

theorem ProfiledRule.expansion_eq (mode : Mode) (index : Nat) (origin : Origin)
    (rule : ProfiledRule) :
    rule.expansion mode index origin = (rule.sketches mode origin).map (Sketch.fill index) := by
  unfold ProfiledRule.expansion ProfiledRule.sketches Penalty.ofProfile
  cases rule.head.negation? with
  | none => rfl
  | some notHead =>
      cases mode.markViolations with
      | true => cases rule.profile.weight <;> rfl
      | false =>
          simp only [Bool.false_eq_true, if_false, choiceEncoding]
          cases rule.head.choice? <;> cases rule.profile.weight <;> rfl

namespace Session

variable {session : Session} {source : Rule} {error : EncodingError}

/-- The same session at a later index. -/
def raise (shift : Nat) (session : Session) : Session :=
  { session with index := session.index + shift }

variable {after : Session} {statements : List Statement} {shift : Nat}

theorem next_raise (shift : Nat) (session : Session) :
    session.next.raise shift = (session.raise shift).next := by
  simp [next, raise, Nat.add_right_comm]

/-- Faults have nothing to do with the index. -/
theorem RuleFault.raise (fault : session.RuleFault source error) :
    (session.raise shift).RuleFault source error := by
  cases fault with
  | profile fresh failed => exact .profile fresh failed
  | evidence fresh profiled treated failed => exact .evidence fresh profiled treated failed
  | plog fresh profiled treated special failed =>
      exact .plog fresh profiled treated special failed
  | empty fresh profiled treated special converted =>
      exact .empty fresh profiled treated special converted
  | annotated fresh profiled untreated on isRemark =>
      exact .annotated fresh profiled untreated on isRemark

/-- Only the encoding of a rule by penalties uses the index. -/
theorem RuleStep.raise (step : session.RuleStep source statements after) :
    (session.raise shift).RuleStep source statements (after.raise shift) ∨
      ∃ rule, ¬ source.IsFact ∧ (source.profile session.mode.power).result = .ok rule ∧
        rule.profile.treatment = none ∧
        (rule.profile.weight.isHard && !session.mode.encodeHard) = false ∧
        (session.raise shift).RuleStep source
          (rule.expansion session.mode (session.index + shift) source.origin)
          (after.raise shift) := by
  cases step with
  | fact fact => exact .inl (.fact fact)
  | query fresh profiled treated => exact .inl (.query fresh profiled treated)
  | evidence fresh profiled treated forbids =>
      exact .inl (.evidence fresh profiled treated forbids)
  | plog fresh profiled treated special converted nonempty =>
      exact .inl (.plog fresh profiled treated special converted nonempty)
  | kept fresh profiled untreated hard off =>
      rw [next_raise]
      exact .inl (.kept fresh profiled untreated hard off)
  | encoded fresh profiled untreated on plain =>
      rw [next_raise]
      exact .inr ⟨_, fresh, profiled, untreated, not_kept_iff.mpr on,
        .encoded fresh profiled untreated on plain⟩

end Session

namespace Call

/-- The same call at a later index. -/
def raise (shift : Nat) (call : Call) : Call := ⟨call.session.raise shift, call.statement⟩

/-- The output of a call with the index left open. -/
def sketches (call : Call) : List Sketch :=
  match call.statement with
  | .rule source =>
      match (source.profile call.session.mode.power).result with
      | .ok rule =>
          if call.isIndexed && !(rule.profile.weight.isHard && !call.session.mode.encodeHard) then
            rule.sketches call.session.mode source.origin
          else call.emitted.map .fixed
      | .error _ => call.emitted.map .fixed
  | _ => call.emitted.map .fixed

theorem map_fill_fixed (index : Nat) (statements : List Statement) :
    (statements.map Sketch.fixed).map (Sketch.fill index) = statements := by
  rw [List.map_map]
  exact List.map_id statements

/-- What a call emits are its sketches, filled with the index. -/
theorem emitted_eq (call : Call) :
    call.emitted = call.sketches.map (Sketch.fill call.session.index) := by
  unfold sketches
  split
  · next source isRule =>
      split
      · next rule profiled =>
          split
          · next encoded =>
              rw [Bool.and_eq_true] at encoded
              obtain ⟨other, reading, sameRule, sameProfile, -, -, emitted⟩ :=
                indexed_cases encoded.1
              cases isRule.symm.trans sameRule
              cases profiled.symm.trans sameProfile
              have notKept : ¬ (rule.profile.weight.isHard && !call.session.mode.encodeHard) = true :=
                fun kept => by simp [kept] at encoded
              rw [emitted, if_neg notKept, ProfiledRule.expansion_eq]
          · rw [map_fill_fixed]
      · rw [map_fill_fixed]
  · rw [map_fill_fixed]

variable {call : Call} {shift : Nat}

theorem result_raise_of_error {error : EncodingError} (failed : call.result = .error error) :
    (call.raise shift).result = .error error := by
  obtain ⟨session, statement⟩ := call
  cases statement with
  | rule source =>
      have fault : session.RuleFault source error := Session.encodeRule_error_iff_fault.mp failed
      exact Session.encodeRule_error_iff_fault.mpr fault.raise
  | weakConstraint content => cases failed
  | directive content => cases failed

theorem isOk_raise (shift : Nat) (call : Call) :
    (call.raise shift).result.isOk = call.result.isOk := by
  cases reached : call.result with
  | error error => rw [result_raise_of_error reached]
  | ok outcome =>
      obtain ⟨session, statement⟩ := call
      cases statement with
      | rule source =>
          have step := @step_of_ok ⟨session, .rule source⟩ source rfl (by rw [reached]; rfl)
          rcases step.raise with raised | ⟨_, _, _, _, _, raised⟩
          · exact (of_step raised).1
          · exact (of_step raised).1
      | weakConstraint content => rfl
      | directive content => rfl

theorem isIndexed_raise (shift : Nat) (call : Call) :
    (call.raise shift).isIndexed = call.isIndexed := by
  unfold isIndexed
  rw [isOk_raise]
  rfl

theorem after_raise (shift : Nat) (call : Call) :
    (call.raise shift).after = call.after.raise shift := by
  rw [after_eq, after_eq, isIndexed_raise]
  simp [raise, Session.raise, Nat.add_right_comm]

/-- At a later index a call emits the same, unless it encodes its rule. -/
theorem emitted_raise (shift : Nat) (call : Call) :
    (call.raise shift).emitted = call.emitted ∨
      ∃ source rule, call.statement = .rule source ∧
        (source.profile call.session.mode.power).result = .ok rule ∧ call.isIndexed = true ∧
        (rule.profile.weight.isHard && !call.session.mode.encodeHard) = false := by
  cases reached : call.result with
  | error error =>
      rw [(of_error reached).1, (of_error (result_raise_of_error reached)).1]
      exact .inl rfl
  | ok outcome =>
      have ok : call.result.isOk = true := by rw [reached]; rfl
      obtain ⟨session, statement⟩ := call
      cases statement with
      | rule source =>
          have step := step_of_ok rfl ok
          rcases step.raise with raised | ⟨rule, fresh, profiled, untreated, notKept, -⟩
          · exact .inl (of_step raised).2.1
          · refine .inr ⟨source, rule, rfl, profiled, ?_, notKept⟩
            have treated : (source.head.isTheory || !source.body.isEmpty) = true := by
              cases isTheory : source.head.isTheory with
              | true => rfl
              | false => simpa using fun empty => fresh ⟨isTheory, empty⟩
            simp [isIndexed, ok, profiled, untreated, treated]
      | weakConstraint content => exact .inl rfl
      | directive content => exact .inl rfl

theorem sketches_raise (shift : Nat) (call : Call) :
    (call.raise shift).sketches = call.sketches := by
  have sameStatement : (call.raise shift).statement = call.statement := rfl
  have sameMode : (call.raise shift).session.mode = call.session.mode := rfl
  rcases call.emitted_raise shift with same | ⟨source, rule, isRule, profiled, indexed, notKept⟩
  · unfold sketches
    rw [isIndexed_raise, same, sameStatement, sameMode]
  · simp only [sketches, sameStatement, sameMode, isIndexed_raise, isRule, profiled, indexed,
      notKept, Bool.not_false, Bool.and_self, if_true]

end Call

namespace Session

variable {session : Session}

theorem calls_raise (shift : Nat) (session : Session) (program : Program) :
    (session.raise shift).calls program = (session.calls program).map (Call.raise shift) := by
  induction program generalizing session with
  | nil => rfl
  | cons statement program inductionHypothesis =>
      have after := Call.after_raise shift ⟨session, statement⟩
      rw [Call.raise] at after
      rw [calls, calls, List.map_cons, after, inductionHypothesis]
      rfl

theorem afterAll_raise (shift : Nat) (session : Session) (program : Program) :
    (session.raise shift).afterAll program = (session.afterAll program).raise shift := by
  induction program generalizing session with
  | nil => rfl
  | cons statement program inductionHypothesis =>
      have after := Call.after_raise shift ⟨session, statement⟩
      rw [Call.raise] at after
      rw [afterAll, afterAll, after, inductionHypothesis]

theorem Succeeds.raise {done : Program} (succeed : session.Succeeds done) (shift : Nat) :
    (session.raise shift).Succeeds done := by
  unfold Succeeds
  rw [calls_raise]
  intro call member
  obtain ⟨lower, isLower, rfl⟩ := List.mem_map.mp member
  rw [Call.isOk_raise]
  exact succeed lower isLower

theorem StopsAt.raise {rest : Program} {error : Option EncodingError}
    (stops : session.StopsAt rest error) (shift : Nat) : (session.raise shift).StopsAt rest error := by
  cases rest with
  | nil => exact stops
  | cons statement rest =>
      obtain ⟨fault, failed, isError⟩ := stops
      exact ⟨fault, Call.result_raise_of_error failed, isError⟩

/-- Goes on with another program, unless there was an error. -/
def Run.andThen (run : Run) (program : Program) : Run :=
  match run.error with
  | some _ => run
  | none =>
      let rest := run.session.encodeAll program
      { rest with output := run.output ++ rest.output, log := run.log ++ rest.log }

/-- Two programs one after the other are encoded as one program. -/
theorem encodeAll_append (session : Session) (first second : Program) :
    session.encodeAll (first ++ second) = (session.encodeAll first).andThen second := by
  induction first generalizing session with
  | nil => simp [encodeAll, Run.andThen]
  | cons statement first inductionHypothesis =>
      simp only [List.cons_append, encodeAll]
      cases (session.encode statement).outcome.result with
      | error error => rfl
      | ok expansion =>
          simp only [inductionHypothesis, Run.andThen]
          cases failed : ((session.encode statement).session.encodeAll first).error with
          | some error => simp [failed]
          | none => simp

theorem encodeAll_append_of_ok {first : Program}
    (succeeds : (session.encodeAll first).error = none) (second : Program) :
    session.encodeAll (first ++ second) =
      { (session.encodeAll first).session.encodeAll second with
        output := (session.encodeAll first).output ++
          ((session.encodeAll first).session.encodeAll second).output
        log := (session.encodeAll first).log ++
          ((session.encodeAll first).session.encodeAll second).log } := by
  simp [encodeAll_append, Run.andThen, succeeds]

theorem encodeAll_error_of_append {first second : Program}
    (succeeds : (session.encodeAll (first ++ second)).error = none) :
    (session.encodeAll first).error = none := by
  cases failed : (session.encodeAll first).error with
  | none => rfl
  | some error => simp [encodeAll_append, Run.andThen, failed] at succeeds

/-- Sessions compose, and a session matters to a program only by its index. One program after the
other is encoded as both of them together. From a later index on, the calls of a program fail with
the same error or are answered by the same sketches, filled with the later index. -/
theorem encoding_depends_on_index_only (session : Session) (first second : Program) (shift : Nat) :
    session.encodeAll (first ++ second) = (session.encodeAll first).andThen second ∧
      (let run := session.encodeAll first
      let raised := (session.raise shift).encodeAll first
      raised.error = run.error ∧ raised.session = run.session.raise shift ∧
        ∃ done, done <+: first ∧
          run.output = (session.calls done).flatMap (fun call =>
            call.sketches.map (Sketch.fill call.session.index)) ∧
          raised.output = (session.calls done).flatMap (fun call =>
            call.sketches.map (Sketch.fill (call.session.index + shift)))) := by
  refine ⟨encodeAll_append session first second, ?_⟩
  obtain ⟨done, rest, error, rfl, succeed, stops⟩ := session.exists_stop first
  obtain ⟨output, after, isError⟩ := encodeAll_of_stop succeed stops
  have raisedStops := stops.raise shift
  rw [← afterAll_raise] at raisedStops
  obtain ⟨raisedOutput, raisedAfter, raisedError⟩ :=
    encodeAll_of_stop (succeed.raise shift) raisedStops
  have raisedEmitted (call : Call) : (call.raise shift).emitted =
      call.sketches.map (Sketch.fill (call.session.index + shift)) := by
    rw [Call.emitted_eq, Call.sketches_raise]
    rfl
  refine ⟨raisedError.trans isError.symm, ?_, done, List.prefix_append _ _, ?_, ?_⟩
  · rw [raisedAfter, after, afterAll_raise]
  · rw [output, funext Call.emitted_eq]
  · rw [raisedOutput, calls_raise, List.flatMap_map, funext raisedEmitted]

end Session

end SoftRules
