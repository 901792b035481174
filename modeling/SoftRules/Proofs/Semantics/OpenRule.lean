import SoftRules.Proofs.Semantics.StableModel

/-!
Rules whose heads are left open. A choice over the head of a rule has the stable models of the
program from which the rule is dropped wherever it is violated.

Of a choice with bounds only the bounds are dropped. It has those stable models as well, and may
have others, in which a violated rule supports some of its elements.
-/

set_option autoImplicit false

namespace SoftRules

namespace GroundRule

/-- Neither choices nor aggregates occur. -/
def IsNormal (rule : GroundRule) : Prop :=
  (∀ content, rule.head ≠ .choice content) ∧
    ∀ literal ∈ rule.body, ∀ content, literal.formula ≠ .count content

/-- Aggregates occur in the head only, and with a bound. -/
def IsGuarded (rule : GroundRule) : Prop :=
  (∀ content, rule.head = .choice content → content.left.isSome ∨ content.right.isSome) ∧
    ∀ literal ∈ rule.body, ∀ content, literal.formula ≠ .count content

theorem IsNormal.isGuarded {rule : GroundRule} (normal : rule.IsNormal) : rule.IsGuarded :=
  ⟨fun content head => absurd head (normal.1 content), normal.2⟩

/-- Rules with the same head whose bodies ask for the same. -/
structure Alike (first second : GroundRule) : Prop where
  head : first.head = second.head
  premises : first.premises = second.premises
  admitted : ∀ model, first.Admitted model ↔ second.Admitted model

theorem Alike.refl (rule : GroundRule) : rule.Alike rule := ⟨rfl, rfl, fun _ => Iff.rfl⟩

theorem Alike.symm {first second : GroundRule} (alike : first.Alike second) :
    second.Alike first :=
  ⟨alike.head.symm, alike.premises.symm, fun model => (alike.admitted model).symm⟩

theorem Alike.applies {first second : GroundRule} (alike : first.Alike second)
    (model : Interpretation) : first.Applies model ↔ second.Applies model := by
  rw [applies_iff, applies_iff, alike.premises, alike.admitted]

theorem Alike.satisfied {first second : GroundRule} (alike : first.Alike second)
    (model : Interpretation) : first.Satisfied model ↔ second.Satisfied model := by
  unfold Satisfied
  rw [alike.applies, alike.head]

/-- The rule with its head left open. A constraint leaves nothing open. -/
def opened? (rule : GroundRule) : Option GroundRule :=
  match rule.head with
  | .atom content => some { rule with head := .choice ⟨none, [content], none⟩ }
  | _ => none

end GroundRule

/-- The atoms that the head is about. -/
def GroundHead.options : GroundHead → List GroundAtom
  | .atom content => [content]
  | .falsity => []
  | .choice content => content.elements

/-- Of the true atoms a head supports those that it is about. -/
theorem GroundHead.supports_iff {head : GroundHead} {model : Interpretation} {atom : GroundAtom}
    (isTrue : atom ∈ model) : head.Supports model atom ↔ atom ∈ head.options := by
  cases head with
  | atom content => simp [GroundHead.Supports, options]
  | falsity => simp [GroundHead.Supports, options]
  | choice content => simp [GroundHead.Supports, options, isTrue]

/-- What a head that holds supports is true. -/
theorem GroundHead.Supports.mem {head : GroundHead} {model : Interpretation} {atom : GroundAtom}
    (supports : head.Supports model atom) (holds : head.Holds model) : atom ∈ model := by
  cases head with
  | atom content =>
      rw [show atom = content from supports]
      exact holds
  | falsity => exact supports.elim
  | choice content => exact supports.2

namespace GroundRule

/-- The rule as a choice without bounds. A constraint leaves nothing open. -/
def released? (rule : GroundRule) : Option GroundRule :=
  match rule.head with
  | .falsity => none
  | head => some { rule with head := .choice ⟨none, head.options, none⟩ }

theorem released?_eq_some {rule released : GroundRule}
    (isReleased : rule.released? = some released) :
    released = { rule with head := .choice ⟨none, rule.head.options, none⟩ } := by
  unfold released? at isReleased
  split at isReleased
  · cases isReleased
  · cases isReleased
    rfl

theorem released?_of_mem {rule : GroundRule} {atom : GroundAtom}
    (isOption : atom ∈ rule.head.options) :
    rule.released? = some { rule with head := .choice ⟨none, rule.head.options, none⟩ } := by
  cases head : rule.head with
  | atom content => simp [released?, head]
  | falsity => simp [head, GroundHead.options] at isOption
  | choice content => simp [released?, head]

theorem Alike.released? {first second released : GroundRule} (alike : first.Alike second)
    (isReleased : first.released? = some released) :
    ∃ other, second.released? = some other ∧ released.Alike other := by
  have shape := released?_eq_some isReleased
  unfold GroundRule.released? at isReleased ⊢
  rw [← alike.head]
  split at isReleased
  · cases isReleased
  · exact ⟨_, rfl, by rw [shape], by rw [shape]; exact alike.premises,
      by rw [shape]; exact alike.admitted⟩

theorem IsNormal.released?_eq {rule : GroundRule} (normal : rule.IsNormal) :
    rule.released? = rule.opened? := by
  unfold released? opened?
  cases head : rule.head with
  | atom content => rfl
  | falsity => rfl
  | choice content => exact absurd head (normal.1 content)

/-- A normal rule that is violated supports nothing that is true. -/
theorem IsNormal.not_mem_options {rule : GroundRule} {model : Interpretation} {atom : GroundAtom}
    (normal : rule.IsNormal) (violated : ¬ rule.Satisfied model) (isTrue : atom ∈ model) :
    atom ∉ rule.head.options := by
  intro isOption
  apply violated
  intro _
  cases head : rule.head with
  | atom content =>
      rw [head] at isOption
      rwa [List.mem_singleton.mp isOption] at isTrue
  | falsity => simp [head, GroundHead.options] at isOption
  | choice content => exact absurd head (normal.1 content)

end GroundRule

/-- The literal that holds if the head does not. -/
def GroundHead.denial : GroundHead → GroundLiteral
  | .atom content => ⟨.negated, .atom content⟩
  | .falsity => ⟨.negated, .truth false⟩
  | .choice content => ⟨.negated, .count content⟩

theorem GroundHead.holds_denial (head : GroundHead) (model : Interpretation) :
    head.denial.Holds model ↔ ¬ head.Holds model := by
  cases head with
  | atom content => rfl
  | falsity => simp [denial, GroundLiteral.Holds, GroundFormula.Holds, GroundHead.Holds]
  | choice content => rfl

/-- A rule is violated if its body holds together with the denial of its head. -/
theorem GroundRule.not_satisfied_iff (rule : GroundRule) (model : Interpretation) :
    ¬ rule.Satisfied model ↔ ∀ literal ∈ rule.head.denial :: rule.body, literal.Holds model := by
  rw [List.forall_mem_cons, GroundHead.holds_denial]
  unfold GroundRule.Satisfied GroundRule.Applies
  constructor
  · intro violated
    by_contra impossible
    apply violated
    intro applies
    by_contra fails
    exact impossible ⟨fails, applies⟩
  · rintro ⟨fails, applies⟩ satisfied
    exact fails (satisfied applies)

/-- A choice without bounds is never violated. -/
theorem GroundAggregate.holds_unbounded (elements : List GroundAtom) (model : Interpretation) :
    (⟨none, elements, none⟩ : GroundAggregate).Holds model := by
  constructor
  · intro bound given
    cases given
  · intro bound given
    cases given

section Alike

variable {first second : List GroundRule} {model : Interpretation}

theorem reduct_subset_of_alike
    (included : ∀ rule ∈ first, ∃ other ∈ second, GroundRule.Alike rule other) {clause : Clause}
    (present : clause ∈ reduct first model) : clause ∈ reduct second model := by
  obtain ⟨rule, member, admitted, supports, premises⟩ := present
  obtain ⟨other, otherMember, alike⟩ := included rule member
  refine ⟨other, otherMember, (alike.admitted model).mp admitted, ?_, ?_⟩
  · rw [← alike.head]
    exact supports
  · rw [← alike.premises]
    exact premises

theorem StableModel.of_alike
    (included : ∀ rule ∈ first, ∃ other ∈ second, GroundRule.Alike rule other)
    (includes : ∀ rule ∈ second, ∃ other ∈ first, GroundRule.Alike rule other)
    (stable : StableModel first model) : StableModel second model where
  satisfied := by
    intro rule member
    obtain ⟨other, otherMember, alike⟩ := includes rule member
    exact (alike.satisfied model).mpr (stable.satisfied other otherMember)
  least := by
    apply derived_congr _ stable.least
    intro clause _
    exact ⟨reduct_subset_of_alike included, reduct_subset_of_alike includes⟩
  coherent := stable.coherent

/-- Only what the bodies ask for matters, and neither their spelling nor the order of the rules. -/
theorem stableModel_congr
    (included : ∀ rule ∈ first, ∃ other ∈ second, GroundRule.Alike rule other)
    (includes : ∀ rule ∈ second, ∃ other ∈ first, GroundRule.Alike rule other) :
    StableModel first model ↔ StableModel second model :=
  ⟨StableModel.of_alike included includes, StableModel.of_alike includes included⟩

end Alike

section Open

variable {kept soft : List GroundRule} {model : Interpretation} {clause : Clause}

open Classical in
/-- A choice without bounds leaves all usable clauses that the rule leaves where it is satisfied. -/
theorem mem_reduct_released (premises : ∀ atom ∈ clause.body, atom ∈ model)
    (present : clause ∈ reduct (kept ++ soft.filter (·.Satisfied model)) model) :
    clause ∈ reduct (kept ++ soft.filterMap GroundRule.released?) model := by
  obtain ⟨rule, member, admitted, supports, body⟩ := present
  rcases List.mem_append.mp member with isKept | isSoft
  · exact ⟨rule, List.mem_append_left _ isKept, admitted, supports, body⟩
  · obtain ⟨isSoft, satisfied⟩ := List.mem_filter.mp isSoft
    have applies : rule.Applies model := by
      rw [GroundRule.applies_iff, ← body]
      exact ⟨premises, admitted⟩
    have isTrue := supports.mem (of_decide_eq_true satisfied applies)
    have isOption := (GroundHead.supports_iff isTrue).mp supports
    refine ⟨_, List.mem_append_right _ (List.mem_filterMap.mpr
      ⟨rule, isSoft, GroundRule.released?_of_mem isOption⟩), admitted, ?_, body⟩
    exact ⟨isOption, isTrue⟩

open Classical in
/-- All other clauses come from violated rules and support something that is true. -/
theorem mem_reduct_of_released
    (present : clause ∈ reduct (kept ++ soft.filterMap GroundRule.released?) model) :
    clause ∈ reduct (kept ++ soft.filter (·.Satisfied model)) model ∨
      ∃ rule ∈ soft, ¬ rule.Satisfied model ∧ clause.head ∈ model ∧
        clause.head ∈ rule.head.options := by
  obtain ⟨released, member, admitted, supports, body⟩ := present
  rcases List.mem_append.mp member with isKept | isReleased
  · exact .inl ⟨released, List.mem_append_left _ isKept, admitted, supports, body⟩
  · obtain ⟨rule, isSoft, isReleased⟩ := List.mem_filterMap.mp isReleased
    cases GroundRule.released?_eq_some isReleased
    obtain ⟨isOption, isTrue⟩ := supports
    by_cases satisfied : rule.Satisfied model
    · refine .inl ⟨rule, List.mem_append_right _ (List.mem_filter.mpr ⟨isSoft, by simpa⟩), admitted,
        ?_, body⟩
      exact (GroundHead.supports_iff isTrue).mpr isOption
    · exact .inr ⟨rule, isSoft, satisfied, isTrue, isOption⟩

theorem satisfied_released (keptSatisfied : ∀ rule ∈ kept, rule.Satisfied model) :
    ∀ rule ∈ kept ++ soft.filterMap GroundRule.released?, rule.Satisfied model := by
  intro rule member
  rcases List.mem_append.mp member with isKept | isReleased
  · exact keptSatisfied rule isKept
  · obtain ⟨source, _, isReleased⟩ := List.mem_filterMap.mp isReleased
    cases GroundRule.released?_eq_some isReleased
    intro _
    exact GroundAggregate.holds_unbounded _ model

open Classical in
/-- A model that is stable without the rules that it violates stays so if these rules become choices
without bounds. -/
theorem StableModel.released
    (stable : StableModel (kept ++ soft.filter (·.Satisfied model)) model) :
    StableModel (kept ++ soft.filterMap GroundRule.released?) model where
  satisfied := satisfied_released fun rule isKept =>
    stable.satisfied rule (List.mem_append_left _ isKept)
  least := by
    intro atom
    constructor
    · intro isTrue
      exact Derived.mono_on (fun derived => (stable.least _).mpr derived)
        (fun clause present premises => mem_reduct_released premises present)
        ((stable.least atom).mp isTrue)
    · apply Derived.mem_of_closed
      intro clause present premises
      rcases mem_reduct_of_released present with present | ⟨_, _, _, isTrue, _⟩
      · exact (stable.least clause.head).mpr
          (.by_clause present fun atom member => (stable.least atom).mp (premises atom member))
      · exact isTrue
  coherent := stable.coherent

open Classical in
/-- Conversely, if no violated rule is about anything that is true. -/
theorem StableModel.of_released
    (stable : StableModel (kept ++ soft.filterMap GroundRule.released?) model)
    (unsupported : ∀ rule ∈ soft, ¬ rule.Satisfied model → ∀ atom ∈ model,
      atom ∉ rule.head.options) :
    StableModel (kept ++ soft.filter (·.Satisfied model)) model where
  satisfied := by
    intro rule member
    rcases List.mem_append.mp member with isKept | isSoft
    · exact stable.satisfied rule (List.mem_append_left _ isKept)
    · exact of_decide_eq_true (List.mem_filter.mp isSoft).2
  least := by
    apply derived_congr _ stable.least
    intro clause premises
    constructor
    · intro present
      rcases mem_reduct_of_released present with present | ⟨rule, isSoft, violated, isTrue, isOption⟩
      · exact present
      · exact absurd isOption (unsupported rule isSoft violated _ isTrue)
    · exact mem_reduct_released premises
  coherent := stable.coherent

open Classical in
/-- Leaving the heads of some rules open comes down to dropping those of them that are violated. -/
theorem stableModel_opened_iff (normal : ∀ rule ∈ soft, rule.IsNormal) :
    StableModel (kept ++ soft.filterMap GroundRule.opened?) model ↔
      StableModel (kept ++ soft.filter (·.Satisfied model)) model := by
  have same : soft.filterMap GroundRule.opened? = soft.filterMap GroundRule.released? :=
    List.filterMap_congr fun rule member => (normal rule member).released?_eq.symm
  rw [same]
  constructor
  · intro stable
    exact stable.of_released fun rule member violated atom isTrue =>
      (normal rule member).not_mem_options violated isTrue
  · exact StableModel.released

end Open

end SoftRules
