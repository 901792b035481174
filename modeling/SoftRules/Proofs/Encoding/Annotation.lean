import SoftRules.Proofs.Encoding.Session

/-!
What the annotations of a rule do to its profile and to its body.

The last annotation that asks for a treatment decides. Weights and evidence leave a literal in their
place, so the annotations that are still there once a rule has been read are those of all other
treatments.
-/

set_option autoImplicit false

namespace SoftRules

/-- The treatment that an annotation asks for. -/
def TheoryAtom.treatment? (remark : TheoryAtom) : Option Treatment := Treatment.ofName? remark.name

namespace BodyElement

def treatment? : BodyElement → Option Treatment
  | .theory remark => remark.treatment?
  | _ => none

def isTheory : BodyElement → Bool
  | .theory _ => true
  | _ => false

end BodyElement

def Head.treatment? : Head → Option Treatment
  | .theory remark => remark.treatment?
  | _ => none

namespace Rule

/-- The treatments that the annotations of the body ask for, from left to right. -/
def bodyTreatments (rule : Rule) : List Treatment := rule.body.filterMap BodyElement.treatment?

/-- The treatments that the annotations of the rule ask for, from left to right. -/
def treatments (rule : Rule) : List Treatment :=
  rule.head.treatment?.toList ++ rule.bodyTreatments

end Rule

section Body

variable {power : Int} {profile after : Profile} {element element' : BodyElement}
  {body found : List BodyElement}

theorem TheoryAtom.Read.treatment_eq {remark : TheoryAtom} {reading : Reading}
    (read : remark.Read power profile reading after) :
    after.treatment = remark.treatment?.or profile.treatment := by
  cases read with
  | treatment named other => simp [TheoryAtom.treatment?, named]
  | evidence named stated => simp [TheoryAtom.treatment?, named]
  | weight unnamed named single first computed => simp [TheoryAtom.treatment?, unnamed]

theorem BodyElement.Profiled.treatment_eq
    (profiled : element.Profiled power profile element' after) :
    after.treatment = element.treatment?.or profile.treatment := by
  cases profiled with
  | literal content => rfl
  | conditional content => rfl
  | theory read => exact read.treatment_eq

/-- If each element that states something has it recorded, then what the last one states stays. -/
theorem BodyElement.ProfiledAll.last_eq {α : Type} {recorded : Profile → Option α}
    {stated : BodyElement → Option α}
    (step : ∀ {profile after : Profile} {element element' : BodyElement},
      element.Profiled power profile element' after →
        recorded after = (stated element).or (recorded profile))
    (profiled : ProfiledAll power profile body found after) :
    recorded after = (body.filterMap stated).getLast?.or (recorded profile) := by
  induction profiled with
  | nil profile => rfl
  | @cons profile middle after element element' body body' first others inductionHypothesis =>
      rw [inductionHypothesis, step first]
      cases states : stated element with
      | none => simp [states]
      | some value =>
          cases last : (body.filterMap stated).getLast? with
          | none => simp [states, List.getLast?_cons, last]
          | some other => simp [states, List.getLast?_cons, last]

/-- The last treatment that the body asks for takes the place of the one before. -/
theorem BodyElement.ProfiledAll.treatment_eq
    (profiled : ProfiledAll power profile body found after) :
    after.treatment = (body.filterMap BodyElement.treatment?).getLast?.or profile.treatment :=
  profiled.last_eq BodyElement.Profiled.treatment_eq

/-- Of the annotations only those stay that ask for a treatment other than evidence. -/
theorem BodyElement.Profiled.isTheory_iff
    (profiled : element.Profiled power profile element' after) :
    element'.isTheory = true ↔ ∃ treatment ∈ element.treatment?, treatment ≠ .evidence := by
  cases profiled with
  | literal content => simp [BodyElement.isTheory, BodyElement.treatment?]
  | conditional content => simp [BodyElement.isTheory, BodyElement.treatment?]
  | theory read =>
      cases read with
      | treatment named other =>
          simp [Reading.toBodyElement, BodyElement.isTheory, BodyElement.treatment?,
            TheoryAtom.treatment?, named, other]
      | evidence named stated =>
          simp [Reading.toBodyElement, BodyElement.isTheory, BodyElement.treatment?,
            TheoryAtom.treatment?, named]
      | weight unnamed named single first computed =>
          simp [Reading.toBodyElement, BodyElement.isTheory, BodyElement.treatment?,
            TheoryAtom.treatment?, unnamed]

theorem BodyElement.ProfiledAll.exists_theory_iff
    (profiled : ProfiledAll power profile body found after) :
    (∃ element ∈ found, element.isTheory = true) ↔
      ∃ treatment ∈ body.filterMap BodyElement.treatment?, treatment ≠ .evidence := by
  induction profiled with
  | nil profile => simp
  | @cons profile middle after element element' body body' first others inductionHypothesis =>
      simp only [List.mem_cons, exists_eq_or_imp, first.isTheory_iff, inductionHypothesis]
      cases asked : element.treatment? with
      | none => simp [asked]
      | some treatment => simp [asked]

theorem BodyElement.ProfiledAll.ne_nil (profiled : ProfiledAll power profile body found after)
    (nonempty : body ≠ []) : found ≠ [] := by
  cases profiled with
  | nil => exact nonempty
  | cons => exact List.cons_ne_nil _ _

/-- In a body without treatments every element is kept or becomes `#true`. -/
theorem BodyElement.ProfiledAll.untreated (profiled : ProfiledAll power profile body found after)
    (untreated : body.filterMap BodyElement.treatment? = []) :
    ∀ element ∈ found, element ∈ body ∨
      ∃ origin, element = .literal { Literal.boolean true with origin } := by
  induction profiled with
  | nil profile => simp
  | @cons profile middle after element element' body body' first others inductionHypothesis =>
      have unasked := List.filterMap_eq_nil_iff.mp untreated
      obtain ⟨firstUnasked, othersUnasked⟩ := List.forall_mem_cons.mp unasked
      refine List.forall_mem_cons.mpr ⟨?_, ?_⟩
      · cases first with
        | literal content => exact .inl (List.mem_cons_self ..)
        | conditional content => exact .inl (List.mem_cons_self ..)
        | theory read =>
            cases read with
            | treatment named other => cases named.symm.trans firstUnasked
            | evidence named stated => cases named.symm.trans firstUnasked
            | weight => exact .inr ⟨_, rfl⟩
      · intro other member
        rcases inductionHypothesis (List.filterMap_eq_nil_iff.mpr othersUnasked) other member with
          kept | isTrue
        · exact .inl (List.mem_cons_of_mem _ kept)
        · exact .inr isTrue

/-- A rule that stays without a weight had none before, and then the only annotations of its body
are those that ask for a treatment. -/
theorem BodyElement.Profiled.isHard (profiled : element.Profiled power profile element' after)
    (hard : after.weight.isHard = true) :
    profile.weight.isHard = true ∧ (element.treatment? = none → element.isTheory = false) := by
  cases profiled with
  | literal content => exact ⟨hard, fun _ => rfl⟩
  | conditional content => exact ⟨hard, fun _ => rfl⟩
  | theory read =>
      cases read with
      | treatment named other => exact ⟨hard, fun unasked => by cases named.symm.trans unasked⟩
      | evidence named stated => exact ⟨hard, fun unasked => by cases named.symm.trans unasked⟩
      | weight => cases hard

theorem BodyElement.ProfiledAll.isHard (profiled : ProfiledAll power profile body found after)
    (hard : after.weight.isHard = true) :
    profile.weight.isHard = true ∧
      ∀ element ∈ body, element.treatment? = none → element.isTheory = false := by
  induction profiled with
  | nil profile => exact ⟨hard, by simp⟩
  | @cons profile middle after element element' body body' first others inductionHypothesis =>
      obtain ⟨middleHard, plain⟩ := inductionHypothesis hard
      obtain ⟨profileHard, firstPlain⟩ := first.isHard middleHard
      exact ⟨profileHard, List.forall_mem_cons.mpr ⟨firstPlain, plain⟩⟩

theorem Head.Profiled.treatment_eq {head head' : Head}
    (profiled : head.Profiled power profile head' after) :
    after.treatment = head.treatment?.or profile.treatment := by
  cases profiled with
  | literal content => rfl
  | aggregate content => rfl
  | theory unweighted read => exact read.treatment_eq

/-- An annotation that may stand in a head asks for a treatment. -/
theorem Head.Profiled.treatment?_isSome {head head' : Head}
    (profiled : head.Profiled power profile head' after) (isTheory : head.isTheory = true) :
    head.treatment?.isSome = true := by
  cases profiled with
  | literal content => cases isTheory
  | aggregate content => cases isTheory
  | theory unweighted read =>
      cases read with
      | treatment named other => simp [Head.treatment?, TheoryAtom.treatment?, named]
      | evidence named stated => simp [Head.treatment?, TheoryAtom.treatment?, named]
      | weight _ named => simp [unweighted] at named

theorem Head.Profiled.eq_of_not_theory {head head' : Head}
    (profiled : head.Profiled power profile head' after) (plain : head.isTheory = false) :
    head' = head := by
  cases profiled with
  | literal content => rfl
  | aggregate content => rfl
  | theory => cases plain

theorem Head.Profiled.eq_of_theory {head : Head} {remark : TheoryAtom}
    (profiled : head.Profiled power profile (.theory remark) after) : head = .theory remark := by
  generalize found : Head.theory remark = head' at profiled
  cases profiled with
  | literal content => cases found
  | aggregate content => cases found
  | theory unweighted read =>
      cases read with
      | treatment named other => rfl
      | evidence named stated => cases found
      | weight _ named => cases found

end Body

section Rule

variable {power : Int} {source : Rule} {rule : ProfiledRule}

/-- The last annotation decides on the treatment of a rule. -/
theorem Rule.profile_treatment (profiled : (source.profile power).result = .ok rule) :
    rule.profile.treatment = source.treatments.getLast? := by
  obtain ⟨middle, head, body⟩ := Rule.profile_ok profiled
  rw [body.treatment_eq, head.treatment_eq, Rule.treatments, Rule.bodyTreatments,
    List.getLast?_append]
  cases source.head.treatment? with
  | none => simp
  | some treatment => simp

theorem Rule.treatments_eq_nil (profiled : (source.profile power).result = .ok rule)
    (untreated : rule.profile.treatment = none) : source.treatments = [] := by
  rw [Rule.profile_treatment profiled] at untreated
  exact List.getLast?_eq_none_iff.mp untreated

/-- A rule without treatments keeps its head, which is no annotation. -/
theorem Rule.head_of_untreated (profiled : (source.profile power).result = .ok rule)
    (untreated : rule.profile.treatment = none) :
    rule.head = source.head ∧ source.head.isTheory = false := by
  obtain ⟨middle, head, body⟩ := Rule.profile_ok profiled
  have unasked : source.head.treatment? = none := by
    have none := Rule.treatments_eq_nil profiled untreated
    simp only [Rule.treatments, List.append_eq_nil_iff, Option.toList_eq_nil_iff] at none
    exact none.1
  have plain : source.head.isTheory = false := by
    rw [Bool.eq_false_iff]
    intro isTheory
    have asked := head.treatment?_isSome isTheory
    rw [unasked] at asked
    cases asked
  exact ⟨head.eq_of_not_theory plain, plain⟩

theorem Rule.body_of_untreated (profiled : (source.profile power).result = .ok rule)
    (untreated : rule.profile.treatment = none) :
    ∀ element ∈ rule.body, element ∈ source.body ∨
      ∃ origin, element = .literal { Literal.boolean true with origin } := by
  obtain ⟨middle, head, body⟩ := Rule.profile_ok profiled
  have none := Rule.treatments_eq_nil profiled untreated
  exact body.untreated (List.append_eq_nil_iff.mp none).2

/-- A rule without treatments and without a weight has no annotations. -/
theorem Rule.plain_of_untreated (profiled : (source.profile power).result = .ok rule)
    (untreated : rule.profile.treatment = none) (hard : rule.profile.weight.isHard = true) :
    ∀ element ∈ source.body, element.isTheory = false := by
  obtain ⟨middle, head, body⟩ := Rule.profile_ok profiled
  have none := (List.append_eq_nil_iff.mp (Rule.treatments_eq_nil profiled untreated)).2
  intro element member
  exact (body.isHard hard).2 element member (List.filterMap_eq_nil_iff.mp none element member)

end Rule

end SoftRules
