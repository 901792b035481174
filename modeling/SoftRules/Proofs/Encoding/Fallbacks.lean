import SoftRules.Proofs.Encoding.Faults
import SoftRules.Proofs.Encoding.Readability
import SoftRules.Proofs.Encoding.Refusals

/-!
Branches of the encoding that no rule reaches.

The encoder is prepared for an annotation that is left in the head of a rule without a treatment,
for evidence without a literal and for a P-log annotation that leaves no statements. None of this
happens: a theory atom in the head asks for a treatment, evidence that can be read is recorded, and
an annotation without elements is refused. What can fail is the reading of the annotations and the
conversion of a P-log annotation.
-/

set_option autoImplicit false

namespace SoftRules

/-! Recorded evidence. -/

section Evidence

variable {power : Int}

/-- Evidence that can be read states a literal. -/
theorem TheoryAtom.IsReadable.evidence?_isSome {remark : TheoryAtom}
    (readable : remark.IsReadable power) (asked : remark.treatment? = some .evidence) :
    remark.evidence?.isSome = true := by
  obtain ⟨reading, after, read⟩ := readable
  cases read with
  | treatment named other => exact absurd (Option.some.inj (named.symm.trans asked)) other
  | evidence named stated => simp [TheoryAtom.evidence?, asked, evidenceLiteral_ok stated]
  | weight unnamed => cases unnamed.symm.trans asked

theorem BodyElement.IsReadable.evidence?_isSome {element : BodyElement}
    (readable : element.IsReadable power) (asked : element.treatment? = some .evidence) :
    element.evidence?.isSome = true := by
  cases element with
  | literal content => cases asked
  | conditional content => cases asked
  | theory remark => exact TheoryAtom.IsReadable.evidence?_isSome readable asked

theorem Head.IsReadable.evidence?_isSome {head : Head} (readable : head.IsReadable power)
    (asked : head.treatment? = some .evidence) : head.evidence?.isSome = true := by
  cases head with
  | literal content => cases asked
  | aggregate content => cases asked
  | theory remark => exact readable.2.evidence?_isSome asked

theorem Rule.IsReadable.evidences_ne_nil {source : Rule} (readable : source.IsReadable power)
    (asked : Treatment.evidence ∈ source.treatments) : source.evidences ≠ [] := by
  rw [Rule.treatments, List.mem_append, Option.mem_toList, Rule.bodyTreatments,
    List.mem_filterMap] at asked
  intro empty
  obtain ⟨noHead, noBody⟩ := List.append_eq_nil_iff.mp empty
  rcases asked with asked | ⟨element, member, asked⟩
  · have stated := readable.head.evidence?_isSome asked
    rw [Option.toList_eq_nil_iff.mp noHead] at stated
    cases stated
  · have stated := (readable.body element member).evidence?_isSome asked
    rw [List.filterMap_eq_nil_iff.mp noBody element member] at stated
    cases stated

/-- A rule that is treated as evidence has its literal recorded, wherever the evidence stands and
whatever else was asked for in front of it. -/
theorem Rule.exists_evidence {source : Rule} {rule : ProfiledRule}
    (profiled : (source.profile power).result = .ok rule)
    (treated : rule.profile.treatment = some .evidence) :
    ∃ literal, rule.profile.evidence = some literal := by
  have readable : source.IsReadable power := by
    rw [← Rule.profile_isOk_iff, profiled]
    rfl
  rw [Rule.profile_treatment profiled] at treated
  have stated := readable.evidences_ne_nil (List.mem_of_getLast? treated)
  rw [Rule.profile_evidence profiled]
  exact ⟨_, List.getLast?_eq_some_getLast stated⟩

end Evidence

/-! Errors that speak of a conversion without statements. -/

namespace Logged

variable {α β : Type}

/-- No error of the computation says that there were no statements. -/
def Substantial (step : Logged α) : Prop :=
  ∀ error, step.result = .error error → error.cause.isNoStatements = false

theorem Substantial.bind {step : Logged α} {next : α → Logged β} (first : step.Substantial)
    (others : ∀ value, (next value).Substantial) : (step >>= next).Substantial :=
  Fails.bind first others

end Logged

theorem Rule.substantial_profile (power : Int) (rule : Rule) :
    (rule.profile power).Substantial := by
  intro error failed
  obtain ⟨remark, -, concerns⟩ := rule.fails_profile power error failed
  exact concerns.substantial

theorem Head.substantial_plogAtom (treatment : Treatment) (head : Head) :
    (head.plogAtom treatment).Substantial := by
  intro error failed
  exact (head.fails_plogAtom treatment error failed).substantial

theorem PlogEncoder.substantial_convert (power : Int) (treatment : Treatment)
    (remark : TheoryAtom) (body : List BodyElement) :
    ((PlogEncoder.standard power).convert treatment remark body).Substantial := by
  intro error failed
  exact (PlogEncoder.fails_convert power treatment remark body error failed).substantial

/-! Conversions that succeed. -/

namespace Plog

variable {remark : TheoryAtom} {body : List BodyElement} {statements : List Statement}

theorem forElements_ne_nil {α : Type} {encode : Element Literal → Logged α}
    {elements : List (Element Literal)} {values : List α} (nonempty : elements ≠ [])
    (converted : (forElements encode elements).result = .ok values) : values ≠ [] := by
  have along := forElements_ok_iff.mp converted
  rintro rfl
  cases along
  exact nonempty rfl

theorem random_ne_nil (converted : (random remark body).result = .ok statements) :
    statements ≠ [] := by
  cases encoded_random converted with
  | random chosen => exact List.cons_ne_nil _ _
  | observation other stated => exact absurd rfl other.1

theorem probability_ne_nil {power : Int}
    (converted : (probability power remark body).result = .ok statements) : statements ≠ [] := by
  cases encoded_probability converted with
  | probability nonempty charged =>
      intro empty
      rw [empty, List.forall₂_nil_right_iff] at charged
      exact nonempty charged
  | observation other stated => exact absurd rfl other.2

theorem observation_ne_nil (converted : (observation remark).result = .ok statements) :
    statements ≠ [] := by
  simp only [observation_eq, Logged.result_bind_eq_ok] at converted
  obtain ⟨value, -, elements, found, converted⟩ := converted
  obtain ⟨rfl, nonempty⟩ := elements_ok found
  exact forElements_ne_nil nonempty converted

end Plog

theorem PlogEncoder.convert_ne_nil {power : Int} {treatment : Treatment} {remark : TheoryAtom}
    {body : List BodyElement} {statements : List Statement}
    (converted : ((PlogEncoder.standard power).convert treatment remark body).result =
      .ok statements) : statements ≠ [] := by
  unfold PlogEncoder.convert at converted
  split at converted
  · exact Plog.random_ne_nil converted
  · exact Plog.probability_ne_nil converted
  · exact Plog.observation_ne_nil converted

namespace Session

variable {session : Session} {source : Rule} {rule : ProfiledRule} {error : EncodingError}

/-- A rule fails if its annotations cannot be read or its P-log annotation cannot be converted. -/
theorem RuleFault.of_standard {power : Int} (standard : session.plog = .standard power)
    (fault : session.RuleFault source error) :
    (source.profile session.mode.power).result = .error error ∨
      ∃ rule treatment, (source.profile session.mode.power).result = .ok rule ∧
        rule.profile.treatment = some treatment ∧
        (session.encodePlog source treatment rule).result = .error error := by
  cases fault with
  | profile fresh failed => exact .inl failed
  | plog fresh profiled treated special failed => exact .inr ⟨_, _, profiled, treated, failed⟩
  | evidence fresh profiled treated failed =>
      obtain ⟨literal, recorded⟩ := Rule.exists_evidence profiled treated
      simp [ProfiledRule.forbidden, recorded] at failed
  | empty fresh profiled treated special converted =>
      rw [encodePlog_result, Logged.result_bind_eq_ok, standard] at converted
      obtain ⟨remark, -, converted⟩ := converted
      exact absurd rfl (PlogEncoder.convert_ne_nil converted)
  | annotated fresh profiled untreated on isRemark =>
      obtain ⟨kept, plain⟩ := Rule.head_of_untreated profiled untreated
      rw [← kept, isRemark] at plain
      cases plain

/-- What the encoder is prepared for and no rule brings about. A rule that is read without a
treatment has no annotation in its head, so it can be encoded; a rule that is read as evidence has
its literal recorded, so it is the recorded one that becomes a constraint; and each conversion of a
P-log annotation leaves a statement. -/
theorem fallbacks_unreachable (mode : Mode) (power : Int) (index : Nat) (source : Rule) :
    let session : Session := { mode, plog := .standard power, index }
    (∀ rule, (source.profile mode.power).result = .ok rule →
      (rule.profile.treatment = none → rule.head.isTheory = false ∧
        (SoftRules.encodeRule mode index source.origin rule).result =
          .ok (rule.expansion mode index source.origin)) ∧
      (rule.profile.treatment = some .evidence → ∃ literal,
        rule.profile.evidence = some literal ∧ rule.forbidden.result = .ok literal)) ∧
    (∀ remark body statements,
      ((PlogEncoder.standard power).random remark body).result = .ok statements ∨
        ((PlogEncoder.standard power).probability remark body).result = .ok statements ∨
        ((PlogEncoder.standard power).observation remark).result = .ok statements →
      statements ≠ []) ∧
    ∀ error, (session.encodeRule source).result = .error error →
      error.cause.isNoStatements = false ∧
        ((source.profile mode.power).result = .error error ∨
          ∃ rule treatment, (source.profile mode.power).result = .ok rule ∧
            rule.profile.treatment = some treatment ∧
            (session.encodePlog source treatment rule).result = .error error) := by
  intro session
  refine ⟨fun rule profiled => ⟨fun untreated => ?_, fun treated => ?_⟩, ?_, ?_⟩
  · obtain ⟨kept, plain⟩ := Rule.head_of_untreated profiled untreated
    rw [← kept] at plain
    exact ⟨plain, encodeRule_ok_iff.mpr ⟨plain, rfl⟩⟩
  · obtain ⟨literal, recorded⟩ := Rule.exists_evidence profiled treated
    exact ⟨literal, recorded, by simp [ProfiledRule.forbidden, recorded]⟩
  · rintro remark body statements (random | probability | observation)
    · exact Plog.random_ne_nil random
    · exact Plog.probability_ne_nil probability
    · exact Plog.observation_ne_nil observation
  · intro error failed
    have fault := (encodeRule_error_iff_fault.mp failed).of_standard rfl
    refine ⟨?_, fault⟩
    rcases fault with failed | ⟨rule, treatment, -, -, failed⟩
    · exact source.substantial_profile mode.power error failed
    · rw [encodePlog_result] at failed
      have substantial := (Head.substantial_plogAtom treatment rule.head).bind fun remark =>
        PlogEncoder.substantial_convert power treatment remark rule.body
      exact substantial error failed

/-- The rule `&query(f) :- &evidence(a), &random { b }, &evidence(c(X),false), &weight(2).` -/
def overwritten : Rule where
  head := .theory { name := "query", arguments := [.constant "f"] }
  body := [
    .theory { name := "evidence", arguments := [.constant "a"] },
    .theory { name := "random", elements := [{ terms := [.constant "b"] }] },
    .theory {
      name := "evidence"
      arguments := [.function "c" [.var ⟨"X", none⟩], .constant "false"] },
    .theory { name := "weight", arguments := [.number 2] }]

theorem fallbacks_unreachable_overwritten :
    ∃ rule literal, (overwritten.profile defaultPower).result = .ok rule ∧
      rule.profile.treatment = some .evidence ∧ rule.profile.evidence = some literal ∧
      rule.forbidden.result = .ok literal := by
  have isOk : (overwritten.profile defaultPower).result.isOk = true := by decide +kernel
  obtain ⟨rule, profiled⟩ := Except.exists_eq_ok isOk
  have treated : rule.profile.treatment = some .evidence := by
    rw [Rule.profile_treatment profiled]
    decide
  obtain ⟨literal, recorded, forbidden⟩ :=
    ((fallbacks_unreachable {} defaultPower 0 overwritten).1 rule profiled).2 treated
  exact ⟨rule, literal, profiled, treated, recorded, forbidden⟩

end Session

end SoftRules
