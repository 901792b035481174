import SoftRules.Proofs.Encoding.RuleReading

/-!
Which rules can be read, and what the profile of a rule records of its annotations.

A rule can be read exactly if each of its annotations can be read on its own and its body gives at
most one weight (`Rule.profile_isOk_iff`). What the last annotation of a kind states is what the
profile records.
-/

set_option autoImplicit false

namespace SoftRules

/-! What annotations state. -/

namespace TheoryAtom

/-- The literal that an annotation forbids if it is evidence. -/
def evidence? (remark : TheoryAtom) : Option Literal :=
  if remark.treatment? = some .evidence then remark.forbidden? else none

/-- The weight that an annotation gives. -/
def weight? (power : Int) (remark : TheoryAtom) : Option Weight :=
  match remark.formula?, remark.arguments with
  | some formula, [argument] => (Weight.ofFormula formula argument power).toOption
  | _, _ => none

theorem treatment?_isSome_of_evidence? {remark : TheoryAtom}
    (states : remark.evidence?.isSome = true) : remark.treatment?.isSome = true := by
  unfold evidence? at states
  split at states
  · next asked => simp [asked]
  · cases states

theorem formula?_isSome_of_weight? {power : Int} {remark : TheoryAtom}
    (states : (remark.weight? power).isSome = true) : remark.formula?.isSome = true := by
  unfold weight? at states
  split at states
  · next found _ => simp [found]
  · cases states

end TheoryAtom

namespace BodyElement

def evidence? : BodyElement → Option Literal
  | .theory remark => remark.evidence?
  | _ => none

def weight? (power : Int) : BodyElement → Option Weight
  | .theory remark => remark.weight? power
  | _ => none

theorem treatment?_isSome_of_evidence? {element : BodyElement}
    (states : element.evidence?.isSome = true) : element.treatment?.isSome = true := by
  cases element with
  | literal content => cases states
  | conditional content => cases states
  | theory remark => exact TheoryAtom.treatment?_isSome_of_evidence? states

theorem formula?_isSome_of_weight? {power : Int} {element : BodyElement}
    (states : (element.weight? power).isSome = true) : element.formula?.isSome = true := by
  cases element with
  | literal content => cases states
  | conditional content => cases states
  | theory remark => exact TheoryAtom.formula?_isSome_of_weight? states

end BodyElement

def Head.evidence? : Head → Option Literal
  | .theory remark => remark.evidence?
  | _ => none

theorem Head.treatment?_isSome_of_evidence? {head : Head}
    (states : head.evidence?.isSome = true) : head.treatment?.isSome = true := by
  cases head with
  | literal content => cases states
  | aggregate content => cases states
  | theory remark => exact TheoryAtom.treatment?_isSome_of_evidence? states

/-- The weight of a soft rule. -/
def RuleWeight.soft? : RuleWeight → Option Weight
  | hard => none
  | soft weight => some weight

theorem RuleWeight.soft?_injective {first second : RuleWeight}
    (same : first.soft? = second.soft?) : first = second := by
  cases first with
  | hard =>
      cases second with
      | hard => rfl
      | soft weight => cases same
  | soft weight =>
      cases second with
      | hard => cases same
      | soft other =>
          cases same
          rfl

namespace Rule

/-- The literals that the evidence in the rule forbids, from left to right. -/
def evidences (rule : Rule) : List Literal :=
  rule.head.evidence?.toList ++ rule.body.filterMap BodyElement.evidence?

/-- The weights that the body gives. -/
def weights (power : Int) (rule : Rule) : List Weight :=
  rule.body.filterMap (BodyElement.weight? power)

end Rule

section Recorded

variable {power : Int} {profile after : Profile} {remark : TheoryAtom} {reading : Reading}
  {element element' : BodyElement} {head head' : Head}

theorem TheoryAtom.Read.evidence_eq (read : remark.Read power profile reading after) :
    after.evidence = remark.evidence?.or profile.evidence := by
  cases read with
  | treatment named other => simp [TheoryAtom.evidence?, TheoryAtom.treatment?, named, other]
  | evidence named stated =>
      simp [TheoryAtom.evidence?, TheoryAtom.treatment?, named, evidenceLiteral_ok stated]
  | weight unnamed named single first computed =>
      simp [TheoryAtom.evidence?, TheoryAtom.treatment?, unnamed]

theorem TheoryAtom.Read.soft?_eq (read : remark.Read power profile reading after) :
    after.weight.soft? = (remark.weight? power).or profile.weight.soft? := by
  cases read with
  | treatment named other => simp [TheoryAtom.weight?, TheoryAtom.formula?_eq_none named]
  | evidence named stated => simp [TheoryAtom.weight?, TheoryAtom.formula?_eq_none named]
  | weight unnamed named single first computed =>
      simp [TheoryAtom.weight?, TheoryAtom.formula?, named, single, computed, Except.toOption,
        RuleWeight.soft?]

theorem BodyElement.Profiled.evidence_eq
    (profiled : element.Profiled power profile element' after) :
    after.evidence = element.evidence?.or profile.evidence := by
  cases profiled with
  | literal content => rfl
  | conditional content => rfl
  | theory read => exact read.evidence_eq

theorem BodyElement.Profiled.soft?_eq (profiled : element.Profiled power profile element' after) :
    after.weight.soft? = (element.weight? power).or profile.weight.soft? := by
  cases profiled with
  | literal content => rfl
  | conditional content => rfl
  | theory read => exact read.soft?_eq

variable {body found : List BodyElement}

theorem BodyElement.ProfiledAll.evidence_eq
    (profiled : ProfiledAll power profile body found after) :
    after.evidence = (body.filterMap BodyElement.evidence?).getLast?.or profile.evidence :=
  profiled.last_eq BodyElement.Profiled.evidence_eq

theorem BodyElement.ProfiledAll.soft?_eq (profiled : ProfiledAll power profile body found after) :
    after.weight.soft? =
      (body.filterMap (BodyElement.weight? power)).getLast?.or profile.weight.soft? :=
  profiled.last_eq BodyElement.Profiled.soft?_eq

theorem Head.Profiled.evidence_eq (profiled : head.Profiled power profile head' after) :
    after.evidence = head.evidence?.or profile.evidence := by
  cases profiled with
  | literal content => rfl
  | aggregate content => rfl
  | theory unweighted read => exact read.evidence_eq

variable {source : Rule} {rule : ProfiledRule}

/-- The evidence that stands last in a rule is recorded. -/
theorem Rule.profile_evidence (profiled : (source.profile power).result = .ok rule) :
    rule.profile.evidence = source.evidences.getLast? := by
  obtain ⟨middle, head, body⟩ := Rule.profile_ok profiled
  rw [body.evidence_eq, head.evidence_eq, Rule.evidences, List.getLast?_append]
  cases source.head.evidence? with
  | none => simp
  | some literal => simp

theorem Rule.profile_soft? (profiled : (source.profile power).result = .ok rule) :
    rule.profile.weight.soft? = (source.weights power).getLast? := by
  obtain ⟨middle, head, body⟩ := Rule.profile_ok profiled
  have hard : middle.weight = .hard := head.weight_eq
  rw [body.soft?_eq, hard, Rule.weights]
  simp [RuleWeight.soft?]

end Recorded

/-! Rules that can be read. -/

/-- The annotation can be read in a rule that has no weight yet. -/
def TheoryAtom.IsReadable (power : Int) (remark : TheoryAtom) : Prop :=
  ∃ reading after, remark.Read power {} reading after

def BodyElement.IsReadable (power : Int) : BodyElement → Prop
  | .theory remark => remark.IsReadable power
  | _ => True

/-- Weights have no place in a head. -/
def Head.IsReadable (power : Int) : Head → Prop
  | .theory remark => remark.formula? = none ∧ remark.IsReadable power
  | _ => True

/-- Each annotation of the rule can be read, and at most one of them gives a weight. -/
structure Rule.IsReadable (power : Int) (rule : Rule) : Prop where
  head : rule.head.IsReadable power
  body : ∀ element ∈ rule.body, element.IsReadable power
  weights : rule.formulas.length ≤ 1

/-- There is room for the weights of a body: it gives none, or one to a rule that has none yet. -/
def Profile.HasRoom (profile : Profile) (formulas : List WeightFormula) : Prop :=
  formulas = [] ∨ (profile.weight = .hard ∧ formulas.length ≤ 1)

section Readable

variable {power : Int} {scope : Scope} {profile after : Profile} {remark : TheoryAtom}
  {reading : Reading}

theorem TheoryAtom.Read.isReadable (read : remark.Read power profile reading after) :
    remark.IsReadable power := by
  cases read with
  | treatment named other => exact ⟨_, _, .treatment named other⟩
  | evidence named stated => exact ⟨_, _, .evidence named stated⟩
  | weight unnamed named single first computed =>
      exact ⟨_, _, .weight unnamed named single rfl computed⟩

/-- What was read before is of no importance, except for a weight in front of a weight. -/
theorem TheoryAtom.IsReadable.exists_read (readable : remark.IsReadable power)
    (room : remark.formula?.isSome = true → profile.weight = .hard) :
    ∃ reading after, remark.Read power profile reading after := by
  obtain ⟨reading, after, read⟩ := readable
  cases read with
  | treatment named other => exact ⟨_, _, .treatment named other⟩
  | evidence named stated => exact ⟨_, _, .evidence named stated⟩
  | weight unnamed named single first computed =>
      have hard := room (by simp [TheoryAtom.formula?, named])
      exact ⟨_, _, .weight unnamed named single hard computed⟩

theorem readTheoryAtom_of_read (read : remark.Read power profile reading after) :
    (profiled scope profile (readTheoryAtom power remark)).result = .ok (reading, after) := by
  cases read with
  | @treatment treatment named other =>
      cases treatment with
      | evidence => exact absurd rfl other
      | _ => simp [readTheoryAtom, named, readTreatment]
  | evidence named stated => simp [readTheoryAtom, named, readTreatment, stated]
  | weight unnamed named single first computed =>
      simp [readTheoryAtom, unnamed, named, single, readWeight, first, RuleWeight.isHard, computed]

variable {element element' : BodyElement} {body found : List BodyElement}

theorem BodyElement.visit_of_profiled (profiled : element.Profiled power profile element' after) :
    (SoftRules.profiled .outer profile (element.visit (profiler power))).result =
      .ok (element', after) := by
  cases profiled with
  | literal content => rw [BodyElement.visit_profiler_literal, Logged.result_pure]
  | conditional content => rw [BodyElement.visit_profiler_conditional, Logged.result_pure]
  | theory read =>
      rw [BodyElement.visit_profiler_theory, Logged.result_bind_eq_ok]
      exact ⟨_, readTheoryAtom_of_read read, rfl⟩

theorem BodyElement.visitAll_of_profiled (profiled : ProfiledAll power profile body found after) :
    (SoftRules.profiled .outer profile (BodyElement.visitAll (profiler power) body)).result =
      .ok (found, after) := by
  induction profiled with
  | nil profile => rfl
  | cons first others inductionHypothesis =>
      simp only [BodyElement.visitAll_profiler, Logged.result_bind_eq_ok]
      exact ⟨_, BodyElement.visit_of_profiled first, _, inductionHypothesis, rfl⟩

theorem BodyElement.Profiled.isReadable (profiled : element.Profiled power profile element' after) :
    element.IsReadable power := by
  cases profiled with
  | literal content => trivial
  | conditional content => trivial
  | theory read => exact read.isReadable

theorem BodyElement.ProfiledAll.isReadable (profiled : ProfiledAll power profile body found after) :
    ∀ element ∈ body, element.IsReadable power := by
  induction profiled with
  | nil profile => simp
  | cons first others inductionHypothesis =>
      exact List.forall_mem_cons.mpr ⟨first.isReadable, inductionHypothesis⟩

theorem BodyElement.IsReadable.exists_profiled (readable : element.IsReadable power)
    (room : element.formula?.isSome = true → profile.weight = .hard) :
    ∃ element' after, element.Profiled power profile element' after := by
  cases element with
  | literal content => exact ⟨_, _, .literal content⟩
  | conditional content => exact ⟨_, _, .conditional content⟩
  | theory remark =>
      obtain ⟨reading, after, read⟩ := TheoryAtom.IsReadable.exists_read readable room
      exact ⟨_, _, .theory read⟩

/-- The elements of a body are read one after the other if each of them can be read and there is
room for their weights. -/
theorem BodyElement.exists_profiledAll (readable : ∀ element ∈ body, element.IsReadable power)
    (room : profile.HasRoom (body.filterMap BodyElement.formula?)) :
    ∃ found after, ProfiledAll power profile body found after := by
  induction body generalizing profile with
  | nil => exact ⟨[], profile, .nil profile⟩
  | cons element body inductionHypothesis =>
      obtain ⟨firstReadable, othersReadable⟩ := List.forall_mem_cons.mp readable
      cases gives : element.formula? with
      | none =>
          obtain ⟨element', middle, first⟩ :
              ∃ element' middle, element.Profiled power profile element' middle :=
            firstReadable.exists_profiled (by simp [gives])
          -- An element without a weight leaves the room as it was.
          have same : middle.weight = profile.weight := by
            rcases first.weighs with ⟨-, same⟩ | ⟨single, -⟩
            · exact same
            · simp [gives] at single
          have room' : middle.HasRoom (body.filterMap BodyElement.formula?) := by
            simpa [Profile.HasRoom, gives, same] using room
          obtain ⟨found, after, others⟩ := inductionHypothesis othersReadable room'
          exact ⟨_, _, .cons first others⟩
      | some formula =>
          rw [List.filterMap_cons_some gives] at room
          rcases room with empty | ⟨hard, single⟩
          · cases empty
          · obtain ⟨element', middle, first⟩ := firstReadable.exists_profiled fun _ => hard
            have empty : body.filterMap BodyElement.formula? = [] := by simpa using single
            obtain ⟨found, after, others⟩ := inductionHypothesis othersReadable (.inl empty)
            exact ⟨_, _, .cons first others⟩

variable {head head' : Head}

theorem Head.visit_of_profiled (profiled : head.Profiled power profile head' after) :
    (SoftRules.profiled .outer profile (head.visit (profiler power))).result =
      .ok (head', after) := by
  cases profiled with
  | literal content => rw [Head.visit_profiler_literal, Logged.result_pure]
  | aggregate content => rw [Head.visit_profiler_aggregate, Logged.result_pure]
  | theory treated read =>
      rw [Head.visit_profiler_theory, if_neg (by simp [treated]), Logged.result_bind_eq_ok]
      exact ⟨_, readTheoryAtom_of_read read, rfl⟩

theorem Head.Profiled.isReadable (profiled : head.Profiled power profile head' after) :
    head.IsReadable power := by
  cases profiled with
  | literal content => trivial
  | aggregate content => trivial
  | theory treated read => exact ⟨treated, read.isReadable⟩

theorem Head.IsReadable.exists_profiled (readable : head.IsReadable power) :
    ∃ head' after, head.Profiled power profile head' after := by
  cases head with
  | literal content => exact ⟨_, _, .literal content⟩
  | aggregate content => exact ⟨_, _, .aggregate content⟩
  | theory remark =>
      obtain ⟨reading, after, read⟩ : ∃ reading after, remark.Read power profile reading after :=
        readable.2.exists_read (by simp [readable.1])
      exact ⟨_, _, .theory readable.1 read⟩

theorem Rule.profile_of_profiled {rule : Rule} {middle : Profile}
    (headProfiled : rule.head.Profiled power {} head middle)
    (bodyProfiled : BodyElement.ProfiledAll power middle rule.body body after) :
    (rule.profile power).result = .ok { head, body, profile := after } := by
  rw [Rule.profile_eq, Logged.result_bind_eq_ok]
  refine ⟨_, Head.visit_of_profiled headProfiled, ?_⟩
  rw [Logged.result_bind_eq_ok]
  exact ⟨_, BodyElement.visitAll_of_profiled bodyProfiled, rfl⟩

/-- Exactly the readable rules are read. -/
theorem Rule.profile_isOk_iff {rule : Rule} :
    (rule.profile power).result.isOk = true ↔ rule.IsReadable power := by
  constructor
  · intro ok
    obtain ⟨profiled, ok⟩ := Except.exists_eq_ok ok
    obtain ⟨middle, head, body⟩ := Rule.profile_ok ok
    exact ⟨head.isReadable, body.isReadable, (Rule.profile_weight ok).1⟩
  · intro readable
    obtain ⟨head, middle, headProfiled⟩ :
        ∃ head middle, rule.head.Profiled power {} head middle := readable.head.exists_profiled
    have hard : middle.weight = .hard := headProfiled.weight_eq
    obtain ⟨body, after, bodyProfiled⟩ :=
      BodyElement.exists_profiledAll readable.body (.inr ⟨hard, readable.weights⟩)
    rw [Rule.profile_of_profiled headProfiled bodyProfiled]
    rfl

end Readable

end SoftRules
