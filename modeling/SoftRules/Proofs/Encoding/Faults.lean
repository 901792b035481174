import SoftRules.Proofs.Encoding.Session

/-!
Rules that cannot be encoded. `Session.RuleFault` says all that can be wrong with a rule; it holds
exactly of the errors of the encoding.

An error leaves the session as it was (`Session.session_of_error`), although an index is used up
before it is known that there are statements for the rule. Rules with an index always have some,
and annotations that might have none get no index.
-/

set_option autoImplicit false

namespace SoftRules

/-- A rule that is read without errors can be encoded, unless an annotation is left in its head. -/
theorem encodeRule_error_iff {mode : Mode} {index : Nat} {origin : Origin} {rule : ProfiledRule}
    {error : EncodingError} :
    (encodeRule mode index origin rule).result = .error error ↔
      ∃ remark, rule.head = .theory remark ∧
        error = ⟨.annotationHead remark.name, remark.origin⟩ := by
  cases isTheory : rule.head.isTheory with
  | true =>
      obtain ⟨head, body, profile⟩ := rule
      cases head with
      | theory remark => simp [encodeRule, eq_comm]
      | literal content => cases isTheory
      | aggregate content => cases isTheory
  | false =>
      have encoded := (@encodeRule_ok_iff mode index origin rule _).mpr ⟨isTheory, rfl⟩
      constructor
      · intro failed
        rw [encoded] at failed
        cases failed
      · rintro ⟨remark, isRemark, -⟩
        rw [isRemark] at isTheory
        cases isTheory

namespace Session

/-- What can be wrong with a rule. -/
inductive RuleFault (session : Session) (source : Rule) : EncodingError → Prop
  | profile {error : EncodingError} (fresh : ¬ source.IsFact)
      (failed : (source.profile session.mode.power).result = .error error) :
      RuleFault session source error
  | evidence {rule : ProfiledRule} {error : EncodingError} (fresh : ¬ source.IsFact)
      (profiled : (source.profile session.mode.power).result = .ok rule)
      (treated : rule.profile.treatment = some .evidence)
      (failed : rule.forbidden.result = .error error) : RuleFault session source error
  | plog {rule : ProfiledRule} {treatment : Treatment} {error : EncodingError}
      (fresh : ¬ source.IsFact)
      (profiled : (source.profile session.mode.power).result = .ok rule)
      (treated : rule.profile.treatment = some treatment)
      (special : treatment ≠ .query ∧ treatment ≠ .evidence)
      (failed : (session.encodePlog source treatment rule).result = .error error) :
      RuleFault session source error
  | empty {rule : ProfiledRule} {treatment : Treatment} (fresh : ¬ source.IsFact)
      (profiled : (source.profile session.mode.power).result = .ok rule)
      (treated : rule.profile.treatment = some treatment)
      (special : treatment ≠ .query ∧ treatment ≠ .evidence)
      (converted : (session.encodePlog source treatment rule).result = .ok []) :
      RuleFault session source ⟨.plog (.noStatements source.render), source.origin⟩
  | annotated {rule : ProfiledRule} {remark : TheoryAtom} (fresh : ¬ source.IsFact)
      (profiled : (source.profile session.mode.power).result = .ok rule)
      (untreated : rule.profile.treatment = none)
      (on : rule.profile.weight.isHard = false ∨ session.mode.encodeHard = true)
      (isRemark : rule.head = .theory remark) :
      RuleFault session source ⟨.annotationHead remark.name, remark.origin⟩

variable {session : Session} {source : Rule} {error : EncodingError}

theorem fault_of_encoder {rule : ProfiledRule} (fresh : ¬ source.IsFact)
    (profiled : (source.profile session.mode.power).result = .ok rule)
    (failed : (rule.encoder source session).result = .error error) :
    session.RuleFault source error := by
  rw [ProfiledRule.encoder, Encoder.get_bind] at failed
  cases treated : rule.profile.treatment with
  | some treatment =>
      simp only [treated] at failed
      cases treatment with
      | query => cases failed
      | evidence =>
          rcases Encoder.lift_bind_eq_error.mp failed with failed | ⟨forbidden, -, failed⟩
          · exact .evidence fresh profiled treated failed
          · cases failed
      | _ =>
          rcases Encoder.lift_bind_eq_error.mp failed with failed | ⟨statements, converted, failed⟩
          · exact .plog fresh profiled treated (by decide) failed
          · obtain ⟨rfl, rfl⟩ :=
              Expansion.ofStatements_eq_error.mp (Turn.result_eq_error.mp failed)
            exact .empty fresh profiled treated (by decide) converted
  | none =>
      simp only [treated] at failed
      cases kept : rule.profile.weight.isHard && !session.mode.encodeHard with
      | true =>
          rw [if_pos kept] at failed
          cases failed
      | false =>
          rw [if_neg (Bool.eq_false_iff.mp kept)] at failed
          rcases Encoder.lift_bind_eq_error.mp failed with failed | ⟨statements, converted, failed⟩
          · obtain ⟨remark, isRemark, rfl⟩ := encodeRule_error_iff.mp failed
            exact .annotated fresh profiled treated (not_kept_iff.mp kept) isRemark
          · -- The index is used up by now, but there are statements.
            obtain ⟨-, rfl⟩ := encodeRule_ok_iff.mp converted
            rw [Encoder.modify_bind] at failed
            have empty := Expansion.ofStatements_eq_error.mp (Turn.result_eq_error.mp failed)
            exact absurd empty.1 (rule.expansion_ne_nil _ _ _)

theorem RuleFault.fresh (fault : session.RuleFault source error) : ¬ source.IsFact := by
  cases fault with
  | profile fresh => exact fresh
  | evidence fresh => exact fresh
  | plog fresh => exact fresh
  | empty fresh => exact fresh
  | annotated fresh => exact fresh

/-- At a fault the encoding stops, before the session is changed. -/
theorem RuleFault.encodeRule (fault : session.RuleFault source error) :
    (session.encodeRule source).result = .error error ∧
      (session.encodeRule source).session = session := by
  rw [encodeRule_of_not_fact fault.fresh]
  cases fault with
  | profile _ failed => simp [failed]
  | evidence _ profiled treated failed =>
      simp [profiled, ProfiledRule.encoder, treated, failed]
  | plog _ profiled treated special failed =>
      simp [profiled, encoder_of_special treated special, failed]
  | empty _ profiled treated special converted =>
      simp [profiled, encoder_of_special treated special, converted,
        Expansion.ofStatements_eq_error.mpr ⟨rfl, rfl⟩]
  | annotated _ profiled untreated on isRemark =>
      have failed := (@encodeRule_error_iff session.mode session.index source.origin _ _).mpr
        ⟨_, isRemark, rfl⟩
      simp [profiled, encoder_of_untreated untreated on, failed]

/-- The encoding of a rule fails exactly with its faults. -/
theorem encodeRule_error_iff_fault :
    (session.encodeRule source).result = .error error ↔ session.RuleFault source error := by
  refine ⟨fun failed => ?_, fun fault => fault.encodeRule.1⟩
  by_cases fact : source.IsFact
  · rw [encodeRule_of_fact fact] at failed
    cases failed
  · rw [encodeRule_of_not_fact fact] at failed
    rcases Encoder.lift_bind_eq_error.mp failed with failed | ⟨rule, profiled, failed⟩
    · exact .profile fact failed
    · exact fault_of_encoder fact profiled failed

/-- A statement that cannot be encoded leaves the session as it was. -/
theorem session_of_error {statement : Statement}
    (failed : (session.encode statement).result = .error error) :
    (session.encode statement).session = session := by
  cases statement with
  | rule source => exact (encodeRule_error_iff_fault.mp failed).encodeRule.2
  | weakConstraint content => rfl
  | directive content => rfl

end Session

end SoftRules
