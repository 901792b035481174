import SoftRules.Proofs.Semantics.MarkedRule

/-!
Penalties that can be switched on by a fact.

The switch is an atom that nothing else depends on. Stating it as a fact adds it to every stable
model and changes nothing else. Where it holds, the penalties that ask for it are due as if they did
not, and where it does not hold they are never due.
-/

set_option autoImplicit false

namespace SoftRules

/-- Nothing about the rule depends on atoms of the given name. -/
structure GroundRule.Ignores (name : String) (rule : GroundRule) : Prop where
  head : rule.head.Avoids name
  premises : ∀ atom ∈ rule.premises, atom.name ≠ name
  admitted : ∀ {first second : Interpretation}, AgreeBeyond name first second →
    (rule.Admitted first ↔ rule.Admitted second)

namespace GroundRule

variable {name : String} {rule other : GroundRule}

theorem Avoids.ignores (avoids : rule.Avoids name) : rule.Ignores name where
  head := avoids.head
  premises := avoids.premises
  admitted agree := agree.admitted avoids

theorem Avoids.released? {released : GroundRule} (avoids : rule.Avoids name)
    (isReleased : rule.released? = some released) : released.Avoids name := by
  cases released?_eq_some isReleased
  refine ⟨?_, avoids.body⟩
  intro atom member
  exact avoids.head.supports ((GroundHead.supports_iff (Set.mem_univ atom)).mpr member)

theorem Ignores.of_alike (ignores : other.Ignores name) (alike : rule.Alike other) :
    rule.Ignores name where
  head := by
    rw [alike.head]
    exact ignores.head
  premises := by
    rw [alike.premises]
    exact ignores.premises
  admitted agree := by
    rw [alike.admitted, alike.admitted]
    exact ignores.admitted agree

theorem Ignores.satisfied {first second : Interpretation} (ignores : rule.Ignores name)
    (agree : AgreeBeyond name first second) : rule.Satisfied first ↔ rule.Satisfied second := by
  have premises :
      (∀ atom ∈ rule.premises, atom ∈ first) ↔ ∀ atom ∈ rule.premises, atom ∈ second := by
    apply forall₂_congr
    intro atom member
    exact agree atom (ignores.premises atom member)
  unfold GroundRule.Satisfied
  rw [applies_iff, applies_iff, premises, ignores.admitted agree, agree.head ignores.head]

end GroundRule

/-- The rule that states the atom. -/
def GroundAtom.fact (atom : GroundAtom) : GroundRule where
  head := .atom atom
  body := []

theorem agreeBeyond_insert (fresh : GroundAtom) (model : Interpretation) :
    AgreeBeyond fresh.name model (insert fresh model) := by
  intro atom beyond
  constructor
  · exact Or.inr
  · rintro (rfl | member)
    · exact absurd rfl beyond
    · exact member

section Fact

variable {fresh : GroundAtom} {rules : List GroundRule} {model extended : Interpretation}
  (free : ∀ rule ∈ rules, rule.Ignores fresh.name)

include free

theorem reduct_name_ne {clause : Clause} (present : clause ∈ reduct rules model) :
    clause.head.name ≠ fresh.name ∧ ∀ atom ∈ clause.body, atom.name ≠ fresh.name := by
  obtain ⟨rule, member, _, supports, body⟩ := present
  refine ⟨(free rule member).head.supports supports, ?_⟩
  rw [body]
  exact (free rule member).premises

theorem Derived.name_ne {atom : GroundAtom} (derived : Derived (reduct rules model) atom) :
    atom.name ≠ fresh.name := by
  cases derived with
  | by_clause present => exact (reduct_name_ne free present).1

/-- The fact leaves one clause more. -/
theorem mem_reduct_fact (agree : AgreeBeyond fresh.name model extended) {clause : Clause} :
    clause ∈ reduct (rules ++ [fresh.fact]) extended ↔
      clause = ⟨fresh, []⟩ ∨ clause ∈ reduct rules model := by
  constructor
  · rintro ⟨rule, member, admitted, supports, body⟩
    rcases List.mem_append.mp member with member | isFact
    · have ignored := free rule member
      exact .inr ⟨rule, member, (ignored.admitted agree).mpr admitted,
        (agree.supports ignored.head _).mpr supports, body⟩
    · cases List.mem_singleton.mp isFact
      obtain ⟨head, premises⟩ := clause
      cases show head = fresh from supports
      cases show premises = [] from body
      exact .inl rfl
  · rintro (rfl | ⟨rule, member, admitted, supports, body⟩)
    · refine ⟨fresh.fact, List.mem_append_right _ (List.mem_singleton.mpr rfl), ?_, rfl, rfl⟩
      intro literal inBody
      cases inBody
    · have ignored := free rule member
      exact ⟨rule, List.mem_append_left _ member, (ignored.admitted agree).mp admitted,
        (agree.supports ignored.head _).mp supports, body⟩

theorem derived_fact_iff (agree : AgreeBeyond fresh.name model extended) {atom : GroundAtom} :
    Derived (reduct (rules ++ [fresh.fact]) extended) atom ↔
      atom = fresh ∨ Derived (reduct rules model) atom := by
  constructor
  · intro derived
    induction derived with
    | by_clause present _ inductionHypothesis =>
        rcases (mem_reduct_fact free agree).mp present with rfl | present
        · exact .inl rfl
        · refine .inr (.by_clause present ?_)
          intro premise member
          rcases inductionHypothesis premise member with same | derived
          · exact absurd (congrArg GroundAtom.name same)
              ((reduct_name_ne free present).2 premise member)
          · exact derived
  · rintro (rfl | derived)
    · apply Derived.by_clause ((mem_reduct_fact free agree).mpr (.inl rfl))
      intro premise member
      cases member
    · induction derived with
      | by_clause present _ inductionHypothesis =>
          exact .by_clause ((mem_reduct_fact free agree).mpr (.inr present)) inductionHypothesis

theorem satisfied_fact_iff (agree : AgreeBeyond fresh.name model extended)
    (states : fresh ∈ extended) :
    (∀ rule ∈ rules ++ [fresh.fact], rule.Satisfied extended) ↔
      ∀ rule ∈ rules, rule.Satisfied model := by
  constructor
  · intro satisfied rule member
    rw [(free rule member).satisfied agree]
    exact satisfied rule (List.mem_append_left _ member)
  · intro satisfied rule member
    rcases List.mem_append.mp member with member | isFact
    · rw [← (free rule member).satisfied agree]
      exact satisfied rule member
    · cases List.mem_singleton.mp isFact
      exact fun _ => states

theorem StableModel.name_ne (stable : StableModel rules model) :
    ∀ atom ∈ model, atom.name ≠ fresh.name := by
  intro atom member
  exact ((stable.least atom).mp member).name_ne free

theorem StableModel.with_fact (stable : StableModel rules model) :
    StableModel (rules ++ [fresh.fact]) (insert fresh model) where
  satisfied :=
    (satisfied_fact_iff free (agreeBeyond_insert fresh model) (.inl rfl)).mpr stable.satisfied
  least := by
    intro atom
    rw [derived_fact_iff free (agreeBeyond_insert fresh model), ← stable.least]
    rfl
  coherent := by
    have beyond := stable.name_ne free
    rintro atom (rfl | member) (opposite | opposite)
    · have same := congrArg GroundAtom.isOpposite opposite
      simp [GroundAtom.opposite] at same
    · exact beyond _ opposite rfl
    · have named : atom.opposite.name = fresh.name := congrArg GroundAtom.name opposite
      exact beyond atom member named
    · exact stable.coherent atom member opposite

theorem StableModel.without_fact (stable : StableModel (rules ++ [fresh.fact]) extended) :
    StableModel rules (unmarked fresh.name extended) ∧
      extended = insert fresh (unmarked fresh.name extended) := by
  have agree : AgreeBeyond fresh.name (unmarked fresh.name extended) extended :=
    agreeBeyond_unmarked extended
  have states : fresh ∈ extended :=
    stable.satisfied fresh.fact (by simp) fun literal inBody => by cases inBody
  have least (atom : GroundAtom) : atom ∈ extended ↔
      atom = fresh ∨ Derived (reduct rules (unmarked fresh.name extended)) atom := by
    rw [stable.least, derived_fact_iff free agree]
  have least' (atom : GroundAtom) : atom ∈ unmarked fresh.name extended ↔
      Derived (reduct rules (unmarked fresh.name extended)) atom := by
    constructor
    · rintro ⟨member, beyond⟩
      rcases (least atom).mp member with rfl | derived
      · exact absurd rfl beyond
      · exact derived
    · intro derived
      exact ⟨(least atom).mpr (.inr derived), derived.name_ne free⟩
  refine ⟨⟨(satisfied_fact_iff free agree states).mp stable.satisfied, least', ?_⟩, ?_⟩
  · intro atom member opposite
    exact stable.coherent atom member.1 opposite.1
  · ext atom
    rw [least, ← least']
    rfl

/-- Stating a fact that nothing depends on adds it to the stable models. -/
theorem bijOn_insert_fact :
    Set.BijOn (insert fresh) {model | StableModel rules model}
      {extended | StableModel (rules ++ [fresh.fact]) extended} := by
  have unmarked_insert {model : Interpretation} (stable : StableModel rules model) :
      unmarked fresh.name (insert fresh model) = model := by
    ext atom
    constructor
    · rintro ⟨rfl | member, beyond⟩
      · exact absurd rfl beyond
      · exact member
    · intro member
      exact ⟨.inr member, stable.name_ne free atom member⟩
  refine ⟨?_, ?_, ?_⟩
  · intro model stable
    exact stable.with_fact free
  · intro first firstStable second secondStable same
    rw [← unmarked_insert firstStable, ← unmarked_insert secondStable, same]
  · intro extended stable
    obtain ⟨isStable, same⟩ := stable.without_fact free
    exact ⟨unmarked fresh.name extended, isStable, same.symm⟩

end Fact

/-- The penalty if it is due only where the switch holds. Penalties of priority `0` are. -/
def GroundPenalty.switchedBy (switch : GroundAtom) (penalty : GroundPenalty) : GroundPenalty :=
  if penalty.charge.priority = 0 then
    { penalty with body := ⟨.plain, .atom switch⟩ :: penalty.body }
  else penalty

section Cost

variable {switch : GroundAtom} {model : Interpretation} (penalties : List GroundPenalty)

theorem GroundPenalty.charge_switchedBy (switch : GroundAtom) (penalty : GroundPenalty) :
    (penalty.switchedBy switch).charge = penalty.charge := by
  unfold GroundPenalty.switchedBy
  split <;> rfl

theorem GroundPenalty.due_switchedBy (switch : GroundAtom) (penalty : GroundPenalty)
    (model : Interpretation) :
    (∀ literal ∈ (penalty.switchedBy switch).body, literal.Holds model) ↔
      (penalty.charge.priority = 0 → switch ∈ model) ∧
        ∀ literal ∈ penalty.body, literal.Holds model := by
  unfold GroundPenalty.switchedBy
  split
  · next soft => simp [soft, GroundLiteral.Holds, GroundFormula.Holds]
  · next hard => simp [hard]

/-- Where the switch holds or is not asked for, the penalties cost what they cost without it. -/
theorem cost_switchedBy {priority : Int} (on : priority = 0 → switch ∈ model) :
    cost (penalties.map (GroundPenalty.switchedBy switch)) model priority =
      cost penalties model priority := by
  have same : GroundPenalty.charge ∘ GroundPenalty.switchedBy switch = GroundPenalty.charge :=
    funext (GroundPenalty.charge_switchedBy switch)
  simp only [cost, List.filter_map, List.map_map, same]
  congr 3
  apply List.filter_congr
  intro penalty _
  simp only [Function.comp_apply, GroundPenalty.charge_switchedBy, GroundPenalty.due_switchedBy,
    decide_eq_decide]
  apply and_congr_right
  rintro rfl
  exact and_iff_right on

theorem cost_switchedBy_off (off : switch ∉ model) :
    cost (penalties.map (GroundPenalty.switchedBy switch)) model 0 = 0 := by
  simp only [cost]
  rw [List.filter_eq_nil_iff.mpr]
  · rfl
  · intro switched member due
    obtain ⟨penalty, _, rfl⟩ := List.mem_map.mp member
    simp only [decide_eq_true_eq, GroundPenalty.charge_switchedBy,
      GroundPenalty.due_switchedBy] at due
    exact off (due.2.1 due.1)

end Cost

end SoftRules
