import SoftRules.Proofs.Encoding.Refusals
import SoftRules.Proofs.Encoding.Requests
import SoftRules.Proofs.Grammar.Placement

/-!
Where the errors of the encoding are located.

An error in reading an annotation is located at the annotation, and any other error at the head of
its rule. In a program that was read from a text both have an origin inside of the statement, except
for the head that is put in front of a constraint: a P-log annotation in the body of a constraint
is refused without an origin.
-/

set_option autoImplicit false

namespace SoftRules

section Reading

variable {power : Int} {profile : Profile} {remark : TheoryAtom}

theorem evidenceLiteral_origin {literal : Literal}
    (stated : evidenceLiteral remark = .ok literal) : literal.origin = remark.origin := by
  have built {atom : Term} {value : Option String}
      (stated : evidenceLiteral.literal remark atom value = .ok literal) :
      literal.origin = remark.origin := by
    unfold evidenceLiteral.literal at stated
    split at stated
    · cases stated
    · cases stated
      rfl
  unfold evidenceLiteral at stated
  split at stated
  · exact built stated
  · exact built stated
  · cases stated

/-- Reading a head leaves it where it was. -/
theorem Head.Profiled.origin_eq {head head' : Head} {after : Profile}
    (profiled : head.Profiled power profile head' after) : head'.origin = head.origin := by
  cases profiled with
  | literal content => rfl
  | aggregate content => rfl
  | theory treated read =>
      cases read with
      | treatment named other => rfl
      | evidence named stated => exact evidenceLiteral_origin stated
      | weight unnamed named single first computed => rfl

end Reading

section Rule

variable {session : Session} {source : Rule} {rule : ProfiledRule} {error : EncodingError}

theorem ProfiledRule.forbidden_error_origin (failed : rule.forbidden.result = .error error) :
    error.origin = rule.head.origin := by
  unfold ProfiledRule.forbidden at failed
  split at failed
  · cases failed
  · cases failed
  · cases failed
    rfl

/-- Behind the reading of the annotations, errors are located at the head. -/
theorem Session.encodePlog_error_origin {treatment : Treatment}
    (standard : ∃ power, session.plog = .standard power)
    (failed : (session.encodePlog source treatment rule).result = .error error) :
    error.origin = rule.head.origin := by
  obtain ⟨power, standard⟩ := standard
  rw [Session.encodePlog_result, Logged.result_bind_eq_error, standard] at failed
  rcases failed with misplaced | ⟨remark, isHead, failed⟩
  · exact (Head.fails_plogAtom treatment rule.head error misplaced).origin_eq
  · obtain ⟨isHead, -⟩ := Head.plogAtom_ok isHead
    rw [isHead]
    have refused := PlogEncoder.fails_convert power treatment remark rule.body error failed
    exact refused.concerns.origin_eq

/-- A constraint whose last treatment is that of a P-log annotation, which belongs into a head. -/
def Rule.MisplacesPlog (power : Int) (rule : Rule) : Prop :=
  rule.IsHeadless ∧ (rule.profile power).result.isOk = true ∧
    ∃ treatment, rule.treatments.getLast? = some treatment ∧ treatment ≠ .query ∧
      treatment ≠ .evidence

namespace Session

theorem RuleFault.origin_eq (standard : ∃ power, session.plog = .standard power)
    (fault : session.RuleFault source error) :
    error.origin = source.head.origin ∨
      (∃ remark, .theory remark ∈ source.body ∧ error.origin = remark.origin) ∨
      error.origin = source.origin := by
  have head {rule : ProfiledRule}
      (profiled : (source.profile session.mode.power).result = .ok rule) :
      rule.head.origin = source.head.origin := by
    obtain ⟨middle, head, -⟩ := Rule.profile_ok profiled
    exact head.origin_eq
  cases fault with
  | profile fresh failed =>
      obtain ⟨remark, isHead | member, concerns⟩ := source.fails_profile _ error failed
      · rw [isHead]
        exact .inl concerns.origin_eq
      · exact .inr (.inl ⟨remark, member, concerns.origin_eq⟩)
  | evidence fresh profiled treated failed =>
      exact .inl ((ProfiledRule.forbidden_error_origin failed).trans (head profiled))
  | plog fresh profiled treated special failed =>
      exact .inl ((encodePlog_error_origin standard failed).trans (head profiled))
  | empty fresh profiled treated special converted => exact .inr (.inr rfl)
  | annotated fresh profiled untreated on isRemark =>
      have isHead := head profiled
      rw [isRemark] at isHead
      exact .inl isHead

/-- A constraint is refused at one of its annotations, or because none of them is its head. -/
theorem RuleFault.of_headless (headless : source.IsHeadless)
    (fault : session.RuleFault source error) :
    ((source.profile session.mode.power).result = .error error ∧
      ∃ remark, .theory remark ∈ source.body ∧ error.origin = remark.origin) ∨
    (source.MisplacesPlog session.mode.power ∧ error.origin = none) := by
  have head {rule : ProfiledRule}
      (profiled : (source.profile session.mode.power).result = .ok rule) :
      rule.head = .literal (.boolean false) := by
    obtain ⟨middle, head, -⟩ := Rule.profile_ok profiled
    rw [headless] at head
    generalize rule.head = found at head
    cases head
    rfl
  cases fault with
  | profile fresh failed =>
      obtain ⟨remark, isHead | member, concerns⟩ := source.fails_profile _ error failed
      · cases headless.symm.trans isHead
      · exact .inl ⟨failed, remark, member, concerns.origin_eq⟩
  | @evidence rule error fresh profiled treated failed =>
      rw [ProfiledRule.forbidden, head profiled] at failed
      split at failed <;> cases failed
  | @plog rule treatment error fresh profiled treated special failed =>
      refine .inr ⟨⟨headless, by rw [profiled]; rfl, treatment, ?_, special⟩, ?_⟩
      · rw [← treated, Rule.profile_treatment profiled]
      · rw [encodePlog, head profiled] at failed
        cases failed
        rfl
  | @empty rule treatment fresh profiled treated special converted =>
      rw [encodePlog, head profiled] at converted
      cases converted
  | annotated fresh profiled untreated on isRemark =>
      cases (head profiled).symm.trans isRemark

/-- What is wrong with a rule that was read is located inside of the rule, unless it has a P-log
annotation but no head. -/
theorem RuleFault.located_iff {whole : Span} (standard : ∃ power, session.plog = .standard power)
    (placed : source.Placed whole) (fault : session.RuleFault source error) :
    (error.origin = none ↔ source.MisplacesPlog session.mode.power) ∧
      ∀ span, error.origin = some span → span.Inside whole := by
  have unique {origin : Origin} (inside : Origin.Inside origin whole)
      (isOrigin : error.origin = origin) :
      error.origin ≠ none ∧ ∀ span, error.origin = some span → span.Inside whole := by
    obtain ⟨span, rfl, within⟩ := inside
    rw [isOrigin]
    exact ⟨nofun, fun _ isSpan => Option.some.inj isSpan ▸ within⟩
  rcases placed.head with headless | written
  · rcases fault.of_headless headless with ⟨failed, remark, member, isOrigin⟩ | ⟨misplaced, isNone⟩
    · obtain ⟨isSome, within⟩ := unique (placed.body _ member remark rfl) isOrigin
      refine ⟨⟨fun isNone => absurd isNone isSome, fun misplaced => ?_⟩, within⟩
      have profiled := misplaced.2.1
      rw [failed] at profiled
      cases profiled
    · refine ⟨⟨fun _ => misplaced, fun _ => isNone⟩, fun span isSpan => ?_⟩
      rw [isNone] at isSpan
      cases isSpan
  · have notMisplaced : ¬ source.MisplacesPlog session.mode.power := by
      intro misplaced
      obtain ⟨span, isSpan, -⟩ := written
      rw [misplaced.1] at isSpan
      cases isSpan
    have located : error.origin ≠ none ∧ ∀ span, error.origin = some span → span.Inside whole := by
      rcases fault.origin_eq standard with isHead | ⟨remark, member, isOrigin⟩ | isWhole
      · exact unique written isHead
      · exact unique (placed.body _ member remark rfl) isOrigin
      · obtain ⟨span, -, within⟩ := written
        refine unique ⟨whole, placed.origin, ?_⟩ isWhole
        unfold Span.Inside at *
        omega
    exact ⟨⟨fun isNone => absurd isNone located.1, fun misplaced => absurd misplaced notMisplaced⟩,
      located.2⟩

theorem afterAll_config (session : Session) (statements : List Statement) :
    (session.afterAll statements).mode = session.mode ∧
      (session.afterAll statements).plog = session.plog := by
  induction statements generalizing session with
  | nil => exact ⟨rfl, rfl⟩
  | cons statement statements inductionHypothesis =>
      have others := inductionHypothesis (Call.after ⟨session, statement⟩)
      rw [afterAll, others.1, others.2, Call.after_eq]
      exact ⟨rfl, rfl⟩

end Session

end Rule

def Statement.MisplacesPlog (power : Int) : Statement → Prop
  | rule content => content.MisplacesPlog power
  | _ => False

theorem Program.encode_result (mode : Mode) (program : Program) :
    (program.encode mode).result =
      let run := ({ mode } : Session).encodeAll program
      match run.error with
      | some error => .error error
      | none => .ok run.output := by
  unfold Program.encode
  cases failed : (({ mode } : Session).encodeAll program).error <;> simp [failed]

/-- The error of a program that was read is located inside of the first statement that cannot be
encoded, unless this is a constraint with a P-log annotation in the place of its head. -/
theorem Program.encoding_error_located_iff {text : List Char} {program : Program} {mode : Mode}
    {error : EncodingError} (parsed : Program.parse text = .ok program)
    (failed : (program.encode mode).result = .error error) :
    ∃ done statement rest whole, program = done ++ statement :: rest ∧
      (∃ target, (Program.encode mode done).result = .ok target) ∧
      (Program.encode mode (done ++ [statement])).result = .error error ∧
      statement.origin = some whole ∧
      (error.origin = none ↔ statement.MisplacesPlog mode.power) ∧
      ∀ span, error.origin = some span → span.Inside whole := by
  rw [Program.encode_result] at failed
  obtain ⟨done, rest, rfl, succeed, -, -, stops⟩ :=
    Session.encodeAll_prefix { mode } program
  have isError : (({ mode } : Session).encodeAll (done ++ rest)).error = some error := by
    cases reached : (({ mode } : Session).encodeAll (done ++ rest)).error with
    | none => simp [reached] at failed
    | some other => simpa [reached] using failed
  rw [isError] at stops
  cases rest with
  | nil => cases stops
  | cons statement rest =>
      obtain ⟨fault, refused, same⟩ := stops
      cases same
      have atEnd : (({ mode } : Session).afterAll done).StopsAt [] none := rfl
      have atStatement : (({ mode } : Session).afterAll done).StopsAt [statement] (some error) :=
        ⟨error, refused, rfl⟩
      have finished := (Session.encodeAll_of_stop succeed atEnd).2.2
      have stopped := (Session.encodeAll_of_stop succeed atStatement).2.2
      rw [List.append_nil] at finished
      obtain ⟨whole, isWhole, placed⟩ :=
        Program.placed_of_parse parsed statement (by simp)
      refine ⟨done, statement, rest, whole, rfl,
        ⟨(({ mode } : Session).encodeAll done).output, ?_⟩, ?_, isWhole, ?_⟩
      · simp only [Program.encode_result, finished]
      · simp only [Program.encode_result, stopped]
      · obtain ⟨sameMode, samePlog⟩ := ({ mode } : Session).afterAll_config done
        cases statement with
        | rule source =>
            have located := (Session.encodeRule_error_iff_fault.mp refused).located_iff
              ⟨mode.power, samePlog⟩ (placed source rfl)
            rw [sameMode] at located
            exact located
        | weakConstraint content => cases refused
        | directive content => cases refused

/-- Where the encoding of a text that can be read fails. -/
def Program.failure? (text : List Char) : Option Origin :=
  match Program.parse text with
  | .error _ => none
  | .ok program =>
      match (program.encode {}).result with
      | .ok _ => none
      | .error error => some error.origin

theorem Program.exists_of_failure? {text : List Char} {origin : Origin}
    (fails : Program.failure? text = some origin) :
    ∃ program error, Program.parse text = .ok program ∧
      (program.encode {}).result = .error error ∧ error.origin = origin := by
  unfold Program.failure? at fails
  split at fails
  · cases fails
  · next program parsed =>
      split at fails
      · cases fails
      · next error failed => exact ⟨program, error, parsed, failed, Option.some.inj fails⟩

/-- The weight of the second statement is no number. -/
def Program.unweighted : List Char := "p(\"é\"). q(X) :- p(X), &weight(X). r.".toList

theorem Program.encoding_error_located_unweighted :
    ∃ program error, Program.parse Program.unweighted = .ok program ∧
      (program.encode {}).result = .error error ∧ error.origin = some ⟨23, 33⟩ ∧
      ∃ done statement rest whole, program = done ++ statement :: rest ∧
        (∃ target, (Program.encode {} done).result = .ok target) ∧
        (Program.encode {} (done ++ [statement])).result = .error error ∧
        statement.origin = some whole ∧
        (error.origin = none ↔ statement.MisplacesPlog defaultPower) ∧
        ∀ span, error.origin = some span → span.Inside whole := by
  have fails : Program.failure? Program.unweighted = some (some ⟨23, 33⟩) := by decide +kernel
  obtain ⟨program, error, parsed, failed, isOrigin⟩ := Program.exists_of_failure? fails
  exact ⟨program, error, parsed, failed, isOrigin,
    Program.encoding_error_located_iff parsed failed⟩

/-- A constraint has no head to point at. -/
theorem Program.constraint_error_unlocated :
    ∃ program error, Program.parse ":- &random \x7b a \x7d.".toList = .ok program ∧
      (program.encode {}).result = .error error ∧ error.origin = none := by
  have fails : Program.failure? ":- &random \x7b a \x7d.".toList = some none := by decide +kernel
  exact Program.exists_of_failure? fails

end SoftRules
