import SoftRules.Proofs.Encoding.Calls
import SoftRules.Proofs.Encoding.Plog

/-!
Annotations in the output. Rules with a query are kept as they are; of all other rules no annotation
should be left.

One kind of rule escapes. A selection or a probability takes its body along, and the treatment is
that of the last annotation, which may stand in the body if it has the name of the one in the head.
`Program.annotation_free_iff` says that there is no other leak.
-/

set_option autoImplicit false

namespace SoftRules

namespace Rule

def isAnnotated (rule : Rule) : Bool := rule.head.isTheory || rule.body.any BodyElement.isTheory

/-- The body ends its annotations with the one of the head, and the head takes the body along. -/
def Repeats (rule : Rule) : Prop :=
  ∃ treatment ∈ rule.head.treatment?, (treatment = .random ∨ treatment = .probability) ∧
    rule.bodyTreatments.getLast? = some treatment

end Rule

def Statement.isAnnotated : Statement → Bool
  | .rule content => content.isAnnotated
  | .weakConstraint content => content.body.any BodyElement.isTheory
  | .directive _ => false

theorem BodyElement.any_isTheory_eq_false {body : List BodyElement} :
    body.any BodyElement.isTheory = false ↔ ∀ element ∈ body, element.isTheory = false := by
  simp

/-- A head that is no annotation and a body without one give statements without annotations. -/
theorem ProfiledRule.isAnnotated_expansion {mode : Mode} {index : Nat} {origin : Origin}
    {rule : ProfiledRule} (plain : rule.head.isTheory = false)
    (free : rule.body.any BodyElement.isTheory = false) :
    ∀ statement ∈ rule.expansion mode index origin, statement.isAnnotated = false := by
  intro statement member
  have behind (content : Literal) :
      (BodyElement.literal content :: rule.body).any BodyElement.isTheory = false := by
    rw [List.any_cons, free]
    rfl
  have switched {switch body : List BodyElement}
      (isSwitch : ∀ element ∈ switch, element = .literal (switchLiteral rule.head.origin))
      (unannotated : body.any BodyElement.isTheory = false) :
      (switch ++ body).any BodyElement.isTheory = false := by
    rw [List.any_append, unannotated, Bool.or_false, BodyElement.any_isTheory_eq_false]
    intro element inSwitch
    rw [isSwitch element inSwitch]
    rfl
  cases ProfiledRule.emits_of_mem member with
  | kept unguarded => rw [Statement.isAnnotated, Rule.isAnnotated, plain, free, Bool.or_false]
  | @violation notHead negation marked => exact behind notHead
  | unviolated negation marked =>
      rw [Statement.isAnnotated, Rule.isAnnotated, plain, Bool.false_or]
      exact behind _
  | markPenalty negation marked => rfl
  | choice open' compact => exact free
  | @penalty notHead _ negation compact isSwitch => exact switched isSwitch (behind notHead)
  | closedPenalty negation closed compact isSwitch => exact switched isSwitch free

namespace Plog

variable {remark : TheoryAtom} {body : List BodyElement} {treatment : Treatment}
  {statements : List Statement}

theorem any_isTheory_literals (literals : List Literal) :
    (literals.map BodyElement.literal).any BodyElement.isTheory = false := by
  rw [List.any_map, List.any_eq_false]
  exact fun literal _ => Bool.false_ne_true

/-- Only selections and probabilities take annotations of the body along. -/
theorem Encoded.isAnnotated (encoded : Encoded remark body treatment statements) :
    ∀ statement ∈ statements, statement.isAnnotated =
      (decide (treatment = .random ∨ treatment = .probability) &&
        body.any BodyElement.isTheory) := by
  cases encoded with
  | random chosen => exact List.forall_mem_singleton.mpr rfl
  | probability nonempty charged =>
      intro statement member
      obtain ⟨element, _, atom, _, rfl⟩ := exists_of_forall₂ charged statement member
      rw [Statement.isAnnotated, penalty, List.any_append, any_isTheory_literals]
      rfl
  | observation other stated =>
      intro statement member
      obtain ⟨element, _, atom, _, rfl⟩ := exists_of_forall₂ stated statement member
      have free := any_isTheory_literals element.condition
      rw [decide_eq_false (not_or.mpr other), Bool.false_and]
      unfold observed
      split
      · exact free
      · split
        · exact free
        · exact free

theorem Encoded.head_isTheory (encoded : Encoded remark body treatment statements) :
    ∀ rule, .rule rule ∈ statements → rule.head.isTheory = false := by
  intro rule member
  cases encoded with
  | random chosen =>
      cases List.mem_singleton.mp member
      rfl
  | probability nonempty charged =>
      obtain ⟨element, _, atom, _, same⟩ := exists_of_forall₂ charged _ member
      cases same
  | observation other stated =>
      obtain ⟨element, _, atom, _, same⟩ := exists_of_forall₂ stated _ member
      cases same
      unfold observed
      split
      · rfl
      · split <;> rfl

end Plog

theorem Treatment.ofName?_name (treatment : Treatment) :
    Treatment.ofName? treatment.name = some treatment := by
  cases treatment <;> rfl

/-- In a rule with the treatment of its head, the body has annotations left exactly if the last of
them asks for the treatment as well. -/
theorem Rule.any_isTheory_iff {power : Int} {source : Rule} {rule : ProfiledRule}
    {treatment : Treatment} (profiled : (source.profile power).result = .ok rule)
    (treated : rule.profile.treatment = some treatment) (other : treatment ≠ .evidence) :
    rule.body.any BodyElement.isTheory = true ↔
      source.bodyTreatments.getLast? = some treatment := by
  obtain ⟨middle, head, body⟩ := Rule.profile_ok profiled
  rw [Rule.profile_treatment profiled, Rule.treatments, List.getLast?_append] at treated
  rw [List.any_eq_true, body.exists_theory_iff]
  constructor
  · rintro ⟨kept, member, -⟩
    obtain ⟨last, isLast⟩ := List.getLast?_isSome.mpr (List.ne_nil_of_mem member) |>
      Option.isSome_iff_exists.mp
    rw [Rule.bodyTreatments, isLast] at treated ⊢
    exact treated
  · intro isLast
    exact ⟨treatment, List.mem_of_getLast? isLast, other⟩

theorem Rule.free_of_untreated {power : Int} {source : Rule} {rule : ProfiledRule}
    (profiled : (source.profile power).result = .ok rule)
    (untreated : rule.profile.treatment = none) : rule.body.any BodyElement.isTheory = false := by
  obtain ⟨middle, head, body⟩ := Rule.profile_ok profiled
  have none := (List.append_eq_nil_iff.mp (Rule.treatments_eq_nil profiled untreated)).2
  rw [Bool.eq_false_iff]
  intro annotated
  obtain ⟨treatment, member, -⟩ := body.exists_theory_iff.mp (List.any_eq_true.mp annotated)
  rw [Rule.bodyTreatments] at none
  rw [none] at member
  cases member

namespace Session

variable {session after : Session} {source : Rule} {statements : List Statement}

/-- The statements that a rule with a P-log annotation leaves. -/
theorem annotated_plog_iff {rule : ProfiledRule} {treatment : Treatment}
    (standard : ∃ power, session.plog = .standard power)
    (profiled : (source.profile session.mode.power).result = .ok rule)
    (treated : rule.profile.treatment = some treatment) (other : treatment ≠ .evidence)
    (converted : (session.encodePlog source treatment rule).result = .ok statements) :
    ∀ statement ∈ statements,
      statement ≠ .rule source ∧ (statement.isAnnotated = true ↔ source.Repeats) := by
  intro statement member
  obtain ⟨remark, isHead, named, encoded⟩ := encodePlog_ok standard converted
  obtain ⟨middle, head, -⟩ := Rule.profile_ok profiled
  rw [isHead] at head
  have isTheory := head.eq_of_theory
  constructor
  · rintro rfl
    have plain := encoded.head_isTheory source member
    rw [isTheory] at plain
    cases plain
  · have asked : source.head.treatment? = some treatment := by
      rw [isTheory, Head.treatment?, TheoryAtom.treatment?, named, Treatment.ofName?_name]
    rw [encoded.isAnnotated statement member, Bool.and_eq_true, decide_eq_true_iff,
      Rule.any_isTheory_iff profiled treated other]
    simp [Rule.Repeats, asked]

/-- A rule whose treatment is not the one of its body repeats nothing. -/
theorem not_repeats {rule : ProfiledRule}
    (profiled : (source.profile session.mode.power).result = .ok rule)
    (other : rule.profile.treatment ≠ some .random ∧ rule.profile.treatment ≠ some .probability) :
    ¬ source.Repeats := by
  rintro ⟨treatment, -, isSelection, isLast⟩
  have treated : rule.profile.treatment = some treatment := by
    rw [Rule.profile_treatment profiled, Rule.treatments, List.getLast?_append, isLast]
    rfl
  rcases isSelection with rfl | rfl
  · exact other.1 treated
  · exact other.2 treated

/-- A rule leaves an annotation in the output exactly if it repeats the one of its head, copies of
queries apart. -/
theorem RuleStep.free_iff_not_repeats (standard : ∃ power, session.plog = .standard power)
    (step : session.RuleStep source statements after) :
    (∀ statement ∈ statements,
      (statement = .rule source ∧ .query ∈ source.treatments) ∨ statement.isAnnotated = false) ↔
        ¬ source.Repeats := by
  cases step with
  | fact fact =>
      refine iff_of_true (List.forall_mem_singleton.mpr (.inr ?_)) ?_
      · simp [Statement.isAnnotated, Rule.isAnnotated, fact.1, fact.2]
      · rintro ⟨treatment, -, -, isLast⟩
        simp [Rule.bodyTreatments, fact.2] at isLast
  | query fresh profiled treated =>
      refine iff_of_true (List.forall_mem_singleton.mpr (.inl ⟨rfl, ?_⟩)) ?_
      · rw [Rule.profile_treatment profiled] at treated
        exact List.mem_of_getLast? treated
      · exact not_repeats profiled (by simp [treated])
  | evidence fresh profiled treated forbids =>
      refine iff_of_true (List.forall_mem_singleton.mpr (.inr rfl)) ?_
      exact not_repeats profiled (by simp [treated])
  | @plog rule treatment _ fresh profiled treated special converted nonempty =>
      have annotated := annotated_plog_iff standard profiled treated special.2 converted
      constructor
      · intro free repeats
        obtain ⟨statement, member⟩ := List.exists_mem_of_ne_nil _ nonempty
        obtain ⟨changed, isAnnotated⟩ := annotated statement member
        rcases free statement member with ⟨copied, -⟩ | unannotated
        · exact changed copied
        · exact Bool.false_ne_true (unannotated.symm.trans (isAnnotated.mpr repeats))
      · intro unrepeated statement member
        right
        rw [Bool.eq_false_iff]
        intro isAnnotated
        exact unrepeated ((annotated statement member).2.mp isAnnotated)
  | kept fresh profiled untreated hard off =>
      refine iff_of_true (List.forall_mem_singleton.mpr (.inr ?_)) ?_
      · have plain := Rule.plain_of_untreated profiled untreated hard
        rw [Statement.isAnnotated, Rule.isAnnotated,
          (Rule.head_of_untreated profiled untreated).2,
          BodyElement.any_isTheory_eq_false.mpr plain]
        rfl
      · exact not_repeats profiled (by simp [untreated])
  | encoded fresh profiled untreated on plain =>
      refine iff_of_true (fun statement member => .inr ?_) ?_
      · have free := Rule.free_of_untreated profiled untreated
        exact ProfiledRule.isAnnotated_expansion plain free statement member
      · exact not_repeats profiled (by simp [untreated])

end Session

namespace Program

/-- The output consists of what is emitted for rules and of copies of the other statements. What is
emitted is free of annotations, copies of queries apart, exactly if no rule repeats the annotation
of its head at the end of those of its body. -/
theorem annotation_free_iff {mode : Mode} {program target : Program}
    (encoded : (program.encode mode).result = .ok target) :
    (∀ statement, statement ∈ target ↔ (∃ source, program.Emits mode source statement) ∨
      (statement ∈ program ∧ statement.isRule = false)) ∧
    ((∀ source statement, program.Emits mode source statement →
      (statement = .rule source ∧ .query ∈ source.treatments) ∨ statement.isAnnotated = false) ↔
        ∀ source, .rule source ∈ program → ¬ source.Repeats) := by
  refine ⟨fun statement => mem_encode_iff encoded, ?_, ?_⟩
  · intro free source member
    obtain ⟨session, statements, after, -, standard, step, emits⟩ := exists_step encoded member
    refine (step.free_iff_not_repeats ⟨_, standard⟩).mp ?_
    exact fun statement isStatement => free source statement (emits statement isStatement)
  · intro unrepeated source statement emits
    obtain ⟨member, session, statements, after, -, standard, step, isStatement⟩ := emits.step
    exact (step.free_iff_not_repeats ⟨_, standard⟩).mpr (unrepeated source member) statement
      isStatement

/-- A selection that states another one in its body. -/
def nestedSelection : Rule where
  head := .theory { name := "random", elements := [⟨[.constant "a"], []⟩, ⟨[.constant "b"], []⟩] }
  body := [.literal (.positive (.predicate (.constant "c"))),
    .theory { name := "random", elements := [⟨[.constant "d"], []⟩] }]

/-- A selection, and a query that follows another annotation. -/
def selectionAndQuery : Program :=
  [.rule {
      head := .theory { name := "random", elements := [⟨[.constant "a"], []⟩] }
      body := [.literal (.positive (.predicate (.constant "c")))] },
    .rule {
      head := .literal (.positive (.predicate (.constant "b")))
      body := [.theory { name := "random" }, .theory { name := "query" }] }]

theorem annotation_free_selection :
    ∃ target, (selectionAndQuery.encode {}).result = .ok target ∧
      ∀ source statement, selectionAndQuery.Emits {} source statement →
        (statement = .rule source ∧ .query ∈ source.treatments) ∨
          statement.isAnnotated = false := by
  refine ⟨_, rfl, (annotation_free_iff rfl).2.mpr ?_⟩
  intro source member
  simp only [selectionAndQuery, List.mem_cons, List.not_mem_nil, or_false] at member
  rcases member with same | same
  · cases same
    rintro ⟨treatment, -, -, isLast⟩
    simp [Rule.bodyTreatments, BodyElement.treatment?] at isLast
  · cases same
    rintro ⟨treatment, isHead, -⟩
    cases isHead

/-- The annotation of the body is left behind. -/
theorem annotation_left :
    ∃ target, (encode {} [.rule nestedSelection]).result = .ok target ∧
      ∃ statement, Emits {} [.rule nestedSelection] nestedSelection statement ∧
        .query ∉ nestedSelection.treatments ∧ statement.isAnnotated = true := by
  refine ⟨_, rfl, _, ⟨_, List.mem_singleton.mpr rfl, rfl, List.mem_singleton.mpr rfl⟩, ?_, rfl⟩
  decide

end Program

end SoftRules
