import SoftRules.Proofs.Encoding.Plog

/-!
What is said against an annotation.

An annotation is refused where it stands: all errors in reading the annotations of a rule
(`Rule.fails_profile`) and in converting a P-log annotation (`PlogEncoder.fails_convert`) are
located at one of the annotations. That a conversion leaves no statements is never among them.
-/

set_option autoImplicit false

namespace SoftRules

/-- The cause is a conversion without statements. -/
def EncodingError.Cause.isNoStatements : EncodingError.Cause → Bool
  | .plog (.noStatements _) => true
  | _ => false

/-- The error is about what stands at the origin, and not about a conversion without statements. -/
structure EncodingError.Concerns (error : EncodingError) (origin : Origin) : Prop where
  origin_eq : error.origin = origin
  substantial : error.cause.isNoStatements = false

namespace Logged

variable {α β : Type} {kind : EncodingError → Prop}

/-- All errors of the computation are of one kind. -/
def Fails (step : Logged α) (kind : EncodingError → Prop) : Prop :=
  ∀ error, step.result = .error error → kind error

theorem fails_pure (value : α) : (pure value : Logged α).Fails kind := by
  intro error failed
  cases failed

theorem fails_write (level : Level) (message : String) : (write level message).Fails kind := by
  intro error failed
  cases failed

theorem fails_fail {cause : EncodingError.Cause} {origin : Origin} (isKind : kind ⟨cause, origin⟩) :
    (fail cause origin : Logged α).Fails kind := by
  intro error failed
  cases failed
  exact isKind

theorem Fails.bind {step : Logged α} {next : α → Logged β} (first : step.Fails kind)
    (others : ∀ value, (next value).Fails kind) : (step >>= next).Fails kind := by
  intro error failed
  rcases result_bind_eq_error.mp failed with failed | ⟨value, -, failed⟩
  · exact first error failed
  · exact others value error failed

theorem Fails.mono {step : Logged α} {other : EncodingError → Prop} (fails : step.Fails kind)
    (weaker : ∀ error, kind error → other error) : step.Fails other := by
  intro error failed
  exact weaker error (fails error failed)

end Logged

open Logged

/-! Reading annotations. -/

section Profile

variable (power : Int) (scope : Scope) (profile : Profile)

theorem fails_readTreatment (treatment : Treatment) (remark : TheoryAtom) :
    (profiled scope profile (readTreatment treatment remark)).Fails
      (·.Concerns remark.origin) := by
  intro error failed
  cases treatment with
  | evidence =>
      cases stated : evidenceLiteral remark with
      | error fault =>
          simp only [readTreatment, stated] at failed
          cases failed
          exact ⟨rfl, rfl⟩
      | ok literal => simp [readTreatment, stated] at failed
  | _ => cases failed

theorem fails_readWeight (formula : WeightFormula) (argument : Term) (origin : Origin) :
    (profiled scope profile (readWeight power formula argument origin)).Fails
      (·.Concerns origin) := by
  intro error failed
  simp only [readWeight, profiled_bind, profiled_get, pure_bind] at failed
  cases first : profile.weight with
  | soft weight =>
      simp only [first, RuleWeight.isHard] at failed
      cases failed
      exact ⟨rfl, rfl⟩
  | hard =>
      cases computed : Weight.ofFormula formula argument power with
      | error fault =>
          simp only [first, RuleWeight.isHard, computed] at failed
          cases failed
          exact ⟨rfl, rfl⟩
      | ok weight => simp [first, RuleWeight.isHard, computed] at failed

theorem fails_readTheoryAtom (remark : TheoryAtom) :
    (profiled scope profile (readTheoryAtom power remark)).Fails (·.Concerns remark.origin) := by
  unfold readTheoryAtom
  split
  · exact fails_readTreatment scope profile _ remark
  · exact fails_readWeight power scope profile _ _ remark.origin
  · intro error failed
    cases failed
    exact ⟨rfl, rfl⟩

theorem BodyElement.fails_visit (element : BodyElement) :
    (profiled .outer profile (element.visit (profiler power))).Fails fun error =>
      ∃ remark, element = .theory remark ∧ error.Concerns remark.origin := by
  cases element with
  | literal content =>
      rw [BodyElement.visit_profiler_literal]
      exact fails_pure _
  | conditional content =>
      rw [BodyElement.visit_profiler_conditional]
      exact fails_pure _
  | theory remark =>
      rw [BodyElement.visit_profiler_theory]
      refine ((fails_readTheoryAtom power .outer profile remark).mono ?_).bind fun _ => fails_pure _
      intro error concerns
      exact ⟨remark, rfl, concerns⟩

/-- The body is refused at one of its annotations. -/
theorem BodyElement.fails_visitAll (body : List BodyElement) :
    (profiled .outer profile (BodyElement.visitAll (profiler power) body)).Fails fun error =>
      ∃ remark, .theory remark ∈ body ∧ error.Concerns remark.origin := by
  induction body generalizing profile with
  | nil => exact fails_pure _
  | cons element body inductionHypothesis =>
      rw [BodyElement.visitAll_profiler]
      refine ((element.fails_visit power profile).mono ?_).bind ?_
      · rintro error ⟨remark, rfl, concerns⟩
        exact ⟨remark, List.mem_cons_self .., concerns⟩
      · rintro ⟨element', middle⟩
        refine ((inductionHypothesis middle).mono ?_).bind fun _ => fails_pure _
        rintro error ⟨remark, member, concerns⟩
        exact ⟨remark, List.mem_cons_of_mem _ member, concerns⟩

theorem Head.fails_visit (head : Head) :
    (profiled .outer profile (head.visit (profiler power))).Fails fun error =>
      ∃ remark, head = .theory remark ∧ error.Concerns remark.origin := by
  cases head with
  | literal content =>
      rw [Head.visit_profiler_literal]
      exact fails_pure _
  | aggregate content =>
      rw [Head.visit_profiler_aggregate]
      exact fails_pure _
  | theory remark =>
      rw [Head.visit_profiler_theory]
      split
      · exact fails_fail ⟨remark, rfl, rfl, rfl⟩
      · refine ((fails_readTheoryAtom power .outer profile remark).mono ?_).bind fun _ =>
          fails_pure _
        intro error concerns
        exact ⟨remark, rfl, concerns⟩

/-- A rule that cannot be read is refused at one of its annotations. -/
theorem Rule.fails_profile (rule : Rule) : (rule.profile power).Fails fun error =>
    ∃ remark, (rule.head = .theory remark ∨ .theory remark ∈ rule.body) ∧
      error.Concerns remark.origin := by
  rw [Rule.profile_eq]
  refine ((rule.head.fails_visit power {}).mono ?_).bind ?_
  · rintro error ⟨remark, isHead, concerns⟩
    exact ⟨remark, .inl isHead, concerns⟩
  · rintro ⟨head, middle⟩
    refine ((BodyElement.fails_visitAll power middle rule.body).mono ?_).bind fun _ => fails_pure _
    rintro error ⟨remark, member, concerns⟩
    exact ⟨remark, .inr member, concerns⟩

end Profile

/-! Converting P-log annotations. -/

namespace Plog

/-- The error says of the annotation that it is malformed. -/
def Malformed (remark : TheoryAtom) (error : EncodingError) : Prop :=
  ∃ fault, error = ⟨.plog fault, remark.origin⟩

structure Refused (remark : TheoryAtom) (error : EncodingError) : Prop where
  malformed : Malformed remark error
  substantial : error.cause.isNoStatements = false

theorem Refused.concerns {remark : TheoryAtom} {error : EncodingError}
    (refused : Refused remark error) : error.Concerns remark.origin := by
  obtain ⟨fault, rfl⟩ := refused.malformed
  exact ⟨rfl, refused.substantial⟩

variable (remark : TheoryAtom) (body : List BodyElement)

theorem fails_elements : (elements remark).Fails (Refused remark) := by
  unfold elements
  split
  · exact fails_fail ⟨⟨_, rfl⟩, rfl⟩
  · exact fails_pure _

theorem fails_elementAtom (element : Element Literal) :
    (elementAtom remark element).Fails (Refused remark) := by
  unfold elementAtom
  split
  · split
    · exact fails_pure _
    · exact fails_fail ⟨⟨_, rfl⟩, rfl⟩
  · exact fails_fail ⟨⟨_, rfl⟩, rfl⟩

theorem fails_forElements {α : Type} (make : Element Literal → Term → α)
    (elements : List (Element Literal)) :
    (forElements (fun element => do return make element (← elementAtom remark element))
      elements).Fails (Refused remark) := by
  induction elements with
  | nil => exact fails_pure _
  | cons element elements inductionHypothesis =>
      have first := (fails_elementAtom remark element).bind fun atom =>
        fails_pure (make element atom)
      exact first.bind fun _ => inductionHypothesis.bind fun _ => fails_pure _

theorem fails_random : (random remark body).Fails (Refused remark) :=
  (fails_elements remark).bind fun _ =>
    (fails_forElements remark (choice remark) _).bind fun _ =>
      (fails_write _ _).bind fun _ => fails_pure _

theorem fails_statedProbability : (statedProbability remark).Fails (Refused remark) := by
  unfold statedProbability
  split
  · exact fails_pure _
  · exact fails_fail ⟨⟨_, rfl⟩, rfl⟩

theorem fails_probability (power : Int) :
    (probability power remark body).Fails (Refused remark) := by
  have charged (weight : Weight) : (elements remark >>= forElements fun element => do
      return Statement.weakConstraint
        (penalty weight remark body element (← elementAtom remark element))).Fails
          (Refused remark) :=
    (fails_elements remark).bind fun _ => fails_forElements remark _ _
  refine (fails_statedProbability remark).bind fun stated => ?_
  split
  · exact (fails_pure _).bind charged
  · exact (fails_fail ⟨⟨_, rfl⟩, rfl⟩).bind charged

theorem fails_observedValue : (observedValue remark).Fails (Refused remark) := by
  unfold observedValue
  split
  · exact fails_pure _
  · split
    · exact fails_pure _
    · exact fails_pure _
    · exact fails_fail ⟨⟨_, rfl⟩, rfl⟩

theorem fails_observation : (observation remark).Fails (Refused remark) := by
  rw [observation_eq]
  refine Fails.bind ?_ fun value => ?_
  · split
    · exact fails_observedValue remark
    · exact fails_pure _
  · exact (fails_elements remark).bind fun _ => fails_forElements remark
      (fun element atom => Statement.rule (observed value remark element atom)) _

end Plog

theorem Head.fails_plogAtom (treatment : Treatment) (head : Head) :
    (head.plogAtom treatment).Fails (·.Concerns head.origin) := by
  unfold Head.plogAtom
  split
  · split
    · exact fails_pure _
    · exact fails_fail ⟨rfl, rfl⟩
  · exact fails_fail ⟨rfl, rfl⟩

theorem PlogEncoder.fails_convert (power : Int) (treatment : Treatment) (remark : TheoryAtom)
    (body : List BodyElement) :
    ((PlogEncoder.standard power).convert treatment remark body).Fails
      (Plog.Refused remark) := by
  unfold PlogEncoder.convert
  split
  · exact Plog.fails_random remark body
  · exact Plog.fails_probability remark body power
  · exact Plog.fails_observation remark

end SoftRules
