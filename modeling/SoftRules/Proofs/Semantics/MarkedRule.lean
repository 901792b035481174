import SoftRules.Proofs.Semantics.OpenRule

/-!
Rules whose violations are marked. Instead of leaving the head of a rule open, a mark is derived
where the rule is violated, and the rule itself is used only where its mark is absent.

If the marks are atoms of a name that the rules avoid, adding the marks of the violated rules is a
bijection from the stable models of the program with open heads onto those of the program with
marks.
-/

set_option autoImplicit false

namespace SoftRules

/-! Parts of a rule that avoid the atoms of some name are evaluated without them. -/

section Avoids

variable (name : String)

def GroundAggregate.Avoids (aggregate : GroundAggregate) : Prop :=
  ∀ atom ∈ aggregate.elements, atom.name ≠ name

def GroundFormula.Avoids : GroundFormula → Prop
  | .atom content => content.name ≠ name
  | .truth _ => True
  | .count content => content.Avoids name

def GroundHead.Avoids : GroundHead → Prop
  | .atom content => content.name ≠ name
  | .falsity => True
  | .choice content => content.Avoids name

structure GroundRule.Avoids (rule : GroundRule) : Prop where
  head : rule.head.Avoids name
  body : ∀ literal ∈ rule.body, literal.formula.Avoids name

/-- The interpretations differ in atoms of the given name only. -/
def AgreeBeyond (first second : Interpretation) : Prop :=
  ∀ atom : GroundAtom, atom.name ≠ name → (atom ∈ first ↔ atom ∈ second)

end Avoids

section Agree

variable {name : String} {first second : Interpretation} (agree : AgreeBeyond name first second)

include agree

theorem AgreeBeyond.aggregate {aggregate : GroundAggregate} (avoids : aggregate.Avoids name) :
    aggregate.Holds first ↔ aggregate.Holds second := by
  classical
  have size : aggregate.size first = aggregate.size second := by
    unfold GroundAggregate.size
    congr 1
    apply Finset.filter_congr
    intro atom member
    exact agree atom (avoids atom (List.mem_toFinset.mp member))
  unfold GroundAggregate.Holds
  rw [size]

theorem AgreeBeyond.formula {formula : GroundFormula} (avoids : formula.Avoids name) :
    formula.Holds first ↔ formula.Holds second := by
  cases formula with
  | atom content => exact agree content avoids
  | truth value => rfl
  | count content => exact agree.aggregate avoids

theorem AgreeBeyond.literal {literal : GroundLiteral} (avoids : literal.formula.Avoids name) :
    literal.Holds first ↔ literal.Holds second := by
  unfold GroundLiteral.Holds
  rw [agree.formula avoids]

theorem AgreeBeyond.head {head : GroundHead} (avoids : head.Avoids name) :
    head.Holds first ↔ head.Holds second := by
  cases head with
  | atom content => exact agree content avoids
  | falsity => rfl
  | choice content => exact agree.aggregate avoids

theorem AgreeBeyond.applies {rule : GroundRule} (avoids : rule.Avoids name) :
    rule.Applies first ↔ rule.Applies second := by
  apply forall₂_congr
  intro literal member
  exact agree.literal (avoids.body literal member)

theorem AgreeBeyond.satisfied {rule : GroundRule} (avoids : rule.Avoids name) :
    rule.Satisfied first ↔ rule.Satisfied second := by
  unfold GroundRule.Satisfied
  rw [agree.applies avoids, agree.head avoids.head]

theorem AgreeBeyond.admitted {rule : GroundRule} (avoids : rule.Avoids name) :
    rule.Admitted first ↔ rule.Admitted second := by
  apply forall₂_congr
  intro literal member
  rw [agree.literal (avoids.body literal member)]

theorem AgreeBeyond.supports {head : GroundHead} (avoids : head.Avoids name) (atom : GroundAtom) :
    head.Supports first atom ↔ head.Supports second atom := by
  cases head with
  | atom content => rfl
  | falsity => rfl
  | choice content =>
      apply and_congr_right
      intro member
      exact agree atom (avoids atom member)

end Agree

/-- A head supports only atoms that it avoids nothing of. -/
theorem GroundHead.Avoids.supports {name : String} {head : GroundHead} (avoids : head.Avoids name)
    {model : Interpretation} {atom : GroundAtom} (supports : head.Supports model atom) :
    atom.name ≠ name := by
  cases head with
  | atom content =>
      cases supports
      exact avoids
  | falsity => exact supports.elim
  | choice content => exact avoids atom supports.1

theorem GroundRule.Avoids.premises {name : String} {rule : GroundRule} (avoids : rule.Avoids name) :
    ∀ atom ∈ rule.premises, atom.name ≠ name := by
  intro atom member
  obtain ⟨literal, inBody, premise⟩ := List.mem_filterMap.mp member
  have avoided := avoids.body literal inBody
  obtain ⟨sign, formula⟩ := literal
  cases sign with
  | plain =>
      cases formula with
      | atom content =>
          cases premise
          exact avoided
      | truth value => cases premise
      | count content => cases premise
  | negated => cases premise
  | doublyNegated => cases premise

/-- A rule and the atom for its violation. -/
structure MarkedRule where
  mark : GroundAtom
  rule : GroundRule

namespace MarkedRule

/-- Derives the mark where the rule is violated. -/
def violation (marked : MarkedRule) : GroundRule where
  head := .atom marked.mark
  body := marked.rule.head.denial :: marked.rule.body

/-- The rule where its mark is absent. -/
def guarded (marked : MarkedRule) : GroundRule where
  head := marked.rule.head
  body := ⟨.negated, .atom marked.mark⟩ :: marked.rule.body

variable (marked : MarkedRule) (model : Interpretation)

theorem premise?_denial (head : GroundHead) : head.denial.premise? = none := by
  cases head <;> rfl

theorem violation_premises : marked.violation.premises = marked.rule.premises := by
  simp [GroundRule.premises, violation, premise?_denial]

theorem violation_admitted : marked.violation.Admitted model ↔
    ¬ marked.rule.head.Holds model ∧ marked.rule.Admitted model := by
  simp [GroundRule.Admitted, violation, premise?_denial, GroundHead.holds_denial]

theorem guarded_admitted : marked.guarded.Admitted model ↔
    marked.mark ∉ model ∧ marked.rule.Admitted model := by
  simp [GroundRule.Admitted, guarded, GroundLiteral.premise?, GroundLiteral.Holds,
    GroundFormula.Holds]

theorem violation_applies : marked.violation.Applies model ↔ ¬ marked.rule.Satisfied model :=
  (marked.rule.not_satisfied_iff model).symm

end MarkedRule

theorem GroundRule.Alike.violation {first second : GroundRule} (alike : first.Alike second)
    (mark : GroundAtom) :
    (MarkedRule.violation ⟨mark, first⟩).Alike (MarkedRule.violation ⟨mark, second⟩) where
  head := rfl
  premises := by
    rw [MarkedRule.violation_premises, MarkedRule.violation_premises]
    exact alike.premises
  admitted := by
    intro model
    rw [MarkedRule.violation_admitted, MarkedRule.violation_admitted]
    simp only
    rw [alike.head, alike.admitted]

theorem GroundRule.Alike.guarded {first second : GroundRule} (alike : first.Alike second)
    (mark : GroundAtom) :
    (MarkedRule.guarded ⟨mark, first⟩).Alike (MarkedRule.guarded ⟨mark, second⟩) where
  head := alike.head
  premises := alike.premises
  admitted := by
    intro model
    rw [MarkedRule.guarded_admitted, MarkedRule.guarded_admitted]
    simp only
    rw [alike.admitted]

/-- The rules that are kept, and for each rule of the other list its two rules with a mark. -/
def markedRules (kept : List GroundRule) (soft : List MarkedRule) : List GroundRule :=
  kept ++ soft.flatMap fun marked => [marked.violation, marked.guarded]

/-- The marks of the violated rules. -/
def marks (soft : List MarkedRule) (model : Interpretation) : Interpretation :=
  fun atom => ∃ marked ∈ soft, atom = marked.mark ∧ ¬ marked.rule.Satisfied model

/-- The marks have a name of their own, and no two rules have the same mark. -/
structure Marking (name : String) (kept : List GroundRule) (soft : List MarkedRule) : Prop where
  kept_avoids : ∀ rule ∈ kept, rule.Avoids name
  soft_avoids : ∀ marked ∈ soft, marked.rule.Avoids name
  named : ∀ marked ∈ soft, marked.mark.name = name
  positive : ∀ marked ∈ soft, marked.mark.isOpposite = false
  distinct : ∀ first ∈ soft, ∀ second ∈ soft, first.mark = second.mark → first = second

section Marked

variable {name : String} {kept : List GroundRule} {soft : List MarkedRule}
  {model extended : Interpretation} {clause : Clause}

theorem mem_markedRules {rule : GroundRule} : rule ∈ markedRules kept soft ↔
    rule ∈ kept ∨ ∃ marked ∈ soft, rule = marked.violation ∨ rule = marked.guarded := by
  simp [markedRules]

/-- The extended interpretation holds the model and the marks of the rules that it violates. -/
structure Extends (name : String) (soft : List MarkedRule) (model extended : Interpretation) :
    Prop where
  agree : AgreeBeyond name model extended
  marked : ∀ marked ∈ soft, marked.mark ∈ extended ↔ ¬ marked.rule.Satisfied model

open Classical in
/-- The rules that are left if those that the model violates are dropped. -/
noncomputable abbrev satisfiedRules (kept : List GroundRule) (soft : List MarkedRule)
    (model : Interpretation) : List GroundRule :=
  kept ++ (soft.map MarkedRule.rule).filter (·.Satisfied model)

theorem mem_satisfiedRules {rule : GroundRule} : rule ∈ satisfiedRules kept soft model ↔
    rule ∈ kept ∨ ∃ marked ∈ soft, rule = marked.rule ∧ marked.rule.Satisfied model := by
  simp only [satisfiedRules, List.mem_append, List.mem_filter, List.mem_map, decide_eq_true_eq]
  constructor
  · rintro (member | ⟨⟨marked, isSoft, rfl⟩, satisfied⟩)
    · exact .inl member
    · exact .inr ⟨marked, isSoft, rfl, satisfied⟩
  · rintro (member | ⟨marked, isSoft, rfl, satisfied⟩)
    · exact .inl member
    · exact .inr ⟨⟨marked, isSoft, rfl⟩, satisfied⟩

theorem Marking.satisfiedRules_avoids (marking : Marking name kept soft) :
    ∀ rule ∈ satisfiedRules kept soft model, rule.Avoids name := by
  intro rule member
  rcases mem_satisfiedRules.mp member with isKept | ⟨marked, isSoft, rfl, _⟩
  · exact marking.kept_avoids rule isKept
  · exact marking.soft_avoids marked isSoft

theorem Marking.reduct_avoids (marking : Marking name kept soft)
    (present : clause ∈ reduct (satisfiedRules kept soft model) model) :
    clause.head.name ≠ name ∧ ∀ atom ∈ clause.body, atom.name ≠ name := by
  obtain ⟨rule, member, _, supports, body⟩ := present
  have avoids := marking.satisfiedRules_avoids rule member
  refine ⟨avoids.head.supports supports, ?_⟩
  rw [body]
  exact avoids.premises

/-- The clauses that do not derive a mark are those of the rules that the model satisfies. -/
theorem Marking.mem_reduct_iff (marking : Marking name kept soft)
    (isExtension : Extends name soft model extended) (unmarked : clause.head.name ≠ name) :
    clause ∈ reduct (markedRules kept soft) extended ↔
      clause ∈ reduct (satisfiedRules kept soft model) model := by
  have agree := isExtension.agree
  constructor
  · rintro ⟨rule, member, admitted, supports, body⟩
    rcases mem_markedRules.mp member with isKept | ⟨marked, isSoft, rfl | rfl⟩
    · have avoids := marking.kept_avoids rule isKept
      exact ⟨rule, mem_satisfiedRules.mpr (.inl isKept), (agree.admitted avoids).mpr admitted,
        (agree.supports avoids.head _).mpr supports, body⟩
    · exact absurd ((congrArg GroundAtom.name supports).trans (marking.named marked isSoft))
        unmarked
    · have avoids := marking.soft_avoids marked isSoft
      obtain ⟨absent, admitted⟩ := (marked.guarded_admitted extended).mp admitted
      have satisfied : marked.rule.Satisfied model := by
        by_contra violated
        exact absent ((isExtension.marked marked isSoft).mpr violated)
      exact ⟨marked.rule, mem_satisfiedRules.mpr (.inr ⟨marked, isSoft, rfl, satisfied⟩),
        (agree.admitted avoids).mpr admitted, (agree.supports avoids.head _).mpr supports, body⟩
  · rintro ⟨rule, member, admitted, supports, body⟩
    have avoids := marking.satisfiedRules_avoids rule member
    have admitted := (agree.admitted avoids).mp admitted
    have supports := (agree.supports avoids.head _).mp supports
    rcases mem_satisfiedRules.mp member with isKept | ⟨marked, isSoft, rfl, satisfied⟩
    · exact ⟨rule, mem_markedRules.mpr (.inl isKept), admitted, supports, body⟩
    · refine ⟨marked.guarded, mem_markedRules.mpr (.inr ⟨marked, isSoft, .inr rfl⟩), ?_, supports,
        body⟩
      refine (marked.guarded_admitted extended).mpr ⟨?_, admitted⟩
      intro present
      exact (isExtension.marked marked isSoft).mp present satisfied

/-- A clause that derives a mark comes from a rule whose head is false. -/
theorem Marking.mem_reduct_mark (marking : Marking name kept soft)
    (agree : AgreeBeyond name model extended)
    (present : clause ∈ reduct (markedRules kept soft) extended)
    (named : clause.head.name = name) :
    ∃ marked ∈ soft, clause.head = marked.mark ∧ ¬ marked.rule.head.Holds model ∧
      marked.rule.Admitted model ∧ clause.body = marked.rule.premises := by
  obtain ⟨rule, member, admitted, supports, body⟩ := present
  rcases mem_markedRules.mp member with isKept | ⟨marked, isSoft, rfl | rfl⟩
  · exact absurd named ((marking.kept_avoids rule isKept).head.supports supports)
  · have avoids := marking.soft_avoids marked isSoft
    obtain ⟨fails, admitted⟩ := (marked.violation_admitted extended).mp admitted
    rw [marked.violation_premises] at body
    refine ⟨marked, isSoft, supports, ?_, (agree.admitted avoids).mpr admitted, body⟩
    rw [agree.head avoids.head]
    exact fails
  · exact absurd named ((marking.soft_avoids marked isSoft).head.supports supports)

/-- Beyond the marks, both programs derive the same. -/
theorem Marking.derived_iff (marking : Marking name kept soft)
    (isExtension : Extends name soft model extended) {atom : GroundAtom}
    (unmarked : atom.name ≠ name) :
    Derived (reduct (markedRules kept soft) extended) atom ↔
      Derived (reduct (satisfiedRules kept soft model) model) atom := by
  constructor
  · intro derived
    induction derived with
    | @by_clause clause present _ inductionHypothesis =>
        have present := (marking.mem_reduct_iff isExtension unmarked).mp present
        apply Derived.by_clause present
        intro premise member
        exact inductionHypothesis premise member ((marking.reduct_avoids present).2 premise member)
  · intro derived
    clear unmarked
    induction derived with
    | @by_clause clause present _ inductionHypothesis =>
        have unmarked := (marking.reduct_avoids present).1
        exact .by_clause ((marking.mem_reduct_iff isExtension unmarked).mpr present)
          inductionHypothesis

/-- In a least model, the marks that are derived are those of the violated rules. -/
theorem Marking.derived_mark_iff (marking : Marking name kept soft)
    (isExtension : Extends name soft model extended)
    (least : ∀ atom, atom ∈ model ↔ Derived (reduct (satisfiedRules kept soft model) model) atom)
    {atom : GroundAtom} (named : atom.name = name) :
    Derived (reduct (markedRules kept soft) extended) atom ↔ atom ∈ marks soft model := by
  have agree := isExtension.agree
  have premises_iff {marked : MarkedRule} (member : marked ∈ soft) :
      (∀ premise ∈ marked.rule.premises,
        Derived (reduct (markedRules kept soft) extended) premise) ↔
      ∀ premise ∈ marked.rule.premises, premise ∈ model := by
    apply forall₂_congr
    intro premise inPremises
    have unmarked := (marking.soft_avoids marked member).premises premise inPremises
    rw [marking.derived_iff isExtension unmarked, least]
  constructor
  · rintro ⟨present, premises⟩
    obtain ⟨marked, member, head, fails, admitted, body⟩ :=
      marking.mem_reduct_mark agree present named
    refine ⟨marked, member, head, ?_⟩
    intro satisfied
    apply fails
    apply satisfied
    rw [GroundRule.applies_iff]
    rw [body] at premises
    exact ⟨(premises_iff member).mp premises, admitted⟩
  · rintro ⟨marked, member, rfl, violated⟩
    have avoids := marking.soft_avoids marked member
    obtain ⟨fails, applies⟩ : ¬ marked.rule.head.Holds model ∧ marked.rule.Applies model := by
      rw [GroundRule.not_satisfied_iff, List.forall_mem_cons, GroundHead.holds_denial] at violated
      exact violated
    obtain ⟨premises, admitted⟩ := (marked.rule.applies_iff model).mp applies
    have present : ⟨marked.mark, marked.rule.premises⟩ ∈
        reduct (markedRules kept soft) extended := by
      refine ⟨marked.violation, mem_markedRules.mpr (.inr ⟨marked, member, .inl rfl⟩), ?_, rfl, ?_⟩
      · rw [marked.violation_admitted, ← agree.head avoids.head, ← agree.admitted avoids]
        exact ⟨fails, admitted⟩
      · exact marked.violation_premises.symm
    exact .by_clause present ((premises_iff member).mpr premises)

/-- Both programs demand the same of the rules that are kept, and nothing of the others. -/
theorem Marking.satisfied_iff (marking : Marking name kept soft)
    (isExtension : Extends name soft model extended) :
    (∀ rule ∈ markedRules kept soft, rule.Satisfied extended) ↔
      ∀ rule ∈ satisfiedRules kept soft model, rule.Satisfied model := by
  have agree := isExtension.agree
  constructor
  · intro satisfied rule member
    rcases mem_satisfiedRules.mp member with isKept | ⟨marked, isSoft, rfl, isSatisfied⟩
    · rw [agree.satisfied (marking.kept_avoids rule isKept)]
      exact satisfied rule (mem_markedRules.mpr (.inl isKept))
    · exact isSatisfied
  · intro satisfied rule member
    rcases mem_markedRules.mp member with isKept | ⟨marked, isSoft, rfl | rfl⟩
    · rw [← agree.satisfied (marking.kept_avoids rule isKept)]
      exact satisfied rule (mem_satisfiedRules.mpr (.inl isKept))
    · intro applies
      rw [marked.violation_applies, ← agree.satisfied (marking.soft_avoids marked isSoft)] at applies
      exact (isExtension.marked marked isSoft).mpr applies
    · intro applies
      obtain ⟨absent, applies⟩ := List.forall_mem_cons.mp applies
      have satisfied : marked.rule.Satisfied model := by
        by_contra violated
        exact absent ((isExtension.marked marked isSoft).mpr violated)
      rw [agree.satisfied (marking.soft_avoids marked isSoft)] at satisfied
      exact satisfied applies

theorem Marking.name_of_mem_marks (marking : Marking name kept soft) {atom : GroundAtom}
    (member : atom ∈ marks soft model) : atom.name = name ∧ atom.isOpposite = false := by
  obtain ⟨marked, isSoft, rfl, _⟩ := member
  exact ⟨marking.named marked isSoft, marking.positive marked isSoft⟩

theorem Marking.extends_marks (marking : Marking name kept soft)
    (avoids : ∀ atom ∈ model, atom.name ≠ name) :
    Extends name soft model (model ∪ marks soft model) where
  agree := by
    intro atom unmarked
    constructor
    · exact Or.inl
    · rintro (member | isMark)
      · exact member
      · exact absurd (marking.name_of_mem_marks isMark).1 unmarked
  marked := by
    intro marked isSoft
    constructor
    · rintro (member | ⟨other, otherSoft, same, violated⟩)
      · exact absurd (marking.named marked isSoft) (avoids _ member)
      · cases marking.distinct marked isSoft other otherSoft same
        exact violated
    · intro violated
      exact .inr ⟨marked, isSoft, rfl, violated⟩

theorem Marking.avoids_of_stable (marking : Marking name kept soft)
    (stable : StableModel (satisfiedRules kept soft model) model) :
    ∀ atom ∈ model, atom.name ≠ name := by
  intro atom member
  cases (stable.least atom).mp member with
  | by_clause present => exact (marking.reduct_avoids present).1

/-- Adding the marks of the violated rules keeps a model stable. -/
theorem Marking.stable_of_satisfied (marking : Marking name kept soft)
    (stable : StableModel (satisfiedRules kept soft model) model) :
    StableModel (markedRules kept soft) (model ∪ marks soft model) := by
  have avoids := marking.avoids_of_stable stable
  have isExtension := marking.extends_marks avoids
  refine ⟨(marking.satisfied_iff isExtension).mpr stable.satisfied, ?_, ?_⟩
  · intro atom
    by_cases named : atom.name = name
    · rw [marking.derived_mark_iff isExtension stable.least named]
      constructor
      · rintro (member | isMark)
        · exact absurd named (avoids atom member)
        · exact isMark
      · exact Or.inr
    · rw [marking.derived_iff isExtension named, ← stable.least]
      exact (isExtension.agree atom named).symm
  · rintro atom (member | isMark) (opposite | oppositeMark)
    · exact stable.coherent atom member opposite
    · exact avoids atom member (marking.name_of_mem_marks oppositeMark).1
    · exact avoids _ opposite (marking.name_of_mem_marks isMark).1
    · have positive := (marking.name_of_mem_marks isMark).2
      have negative := (marking.name_of_mem_marks oppositeMark).2
      simp [GroundAtom.opposite, positive] at negative

/-- The atoms that are no marks. -/
def unmarked (name : String) (extended : Interpretation) : Interpretation :=
  fun atom => atom ∈ extended ∧ atom.name ≠ name

theorem agreeBeyond_unmarked (extended : Interpretation) :
    AgreeBeyond name (unmarked name extended) extended :=
  fun _ beyond => ⟨fun member => member.1, fun member => ⟨member, beyond⟩⟩

/-- A stable model holds exactly the marks of the rules that are violated. -/
theorem Marking.extends_unmarked (marking : Marking name kept soft)
    (stable : StableModel (markedRules kept soft) extended) :
    Extends name soft (unmarked name extended) extended where
  agree := agreeBeyond_unmarked extended
  marked := by
    have agree : AgreeBeyond name (unmarked name extended) extended :=
      agreeBeyond_unmarked extended
    intro marked isSoft
    have avoids := marking.soft_avoids marked isSoft
    constructor
    · intro member satisfied
      generalize shape : marked.mark = atom at member
      cases (stable.least atom).mp member with
      | @by_clause clause present premises =>
          obtain ⟨other, otherSoft, head, fails, admitted, body⟩ :=
            marking.mem_reduct_mark agree present (shape ▸ marking.named marked isSoft)
          cases marking.distinct marked isSoft other otherSoft (shape.trans head)
          apply fails
          apply satisfied
          rw [GroundRule.applies_iff]
          refine ⟨?_, admitted⟩
          intro premise inPremises
          rw [← body] at inPremises
          refine ⟨(stable.least premise).mpr (premises premise inPremises), ?_⟩
          rw [body] at inPremises
          exact avoids.premises premise inPremises
    · intro violated
      rw [agree.satisfied avoids, ← marked.violation_applies] at violated
      exact stable.satisfied marked.violation
        (mem_markedRules.mpr (.inr ⟨marked, isSoft, .inl rfl⟩)) violated

/-- A stable model with marks comes from one without. -/
theorem Marking.satisfied_of_stable (marking : Marking name kept soft)
    (stable : StableModel (markedRules kept soft) extended) :
    StableModel (satisfiedRules kept soft (unmarked name extended)) (unmarked name extended) ∧
      extended = unmarked name extended ∪ marks soft (unmarked name extended) := by
  have isExtension := marking.extends_unmarked stable
  have least : ∀ atom, atom ∈ unmarked name extended ↔
      Derived (reduct (satisfiedRules kept soft (unmarked name extended))
        (unmarked name extended)) atom := by
    intro atom
    by_cases named : atom.name = name
    · constructor
      · intro member
        exact absurd named member.2
      · rintro ⟨present, _⟩
        exact absurd named (marking.reduct_avoids present).1
    · rw [isExtension.agree atom named, stable.least, marking.derived_iff isExtension named]
  refine ⟨⟨(marking.satisfied_iff isExtension).mp stable.satisfied, least, ?_⟩, ?_⟩
  · intro atom member opposite
    exact stable.coherent atom member.1 opposite.1
  · ext atom
    by_cases named : atom.name = name
    · rw [stable.least, marking.derived_mark_iff isExtension least named]
      constructor
      · exact Or.inr
      · rintro (member | isMark)
        · exact absurd named member.2
        · exact isMark
    · rw [← isExtension.agree atom named]
      constructor
      · exact Or.inl
      · rintro (member | isMark)
        · exact member
        · exact absurd (marking.name_of_mem_marks isMark).1 named

theorem stableModel_opened_iff_satisfied (normal : ∀ marked ∈ soft, marked.rule.IsNormal) :
    StableModel (kept ++ (soft.map MarkedRule.rule).filterMap GroundRule.opened?) model ↔
      StableModel (satisfiedRules kept soft model) model := by
  apply stableModel_opened_iff
  intro rule member
  obtain ⟨marked, isSoft, rfl⟩ := List.mem_map.mp member
  exact normal marked isSoft

theorem Marking.extends_of_opened (marking : Marking name kept soft)
    (normal : ∀ marked ∈ soft, marked.rule.IsNormal)
    (stable : StableModel (kept ++ (soft.map MarkedRule.rule).filterMap GroundRule.opened?)
      model) :
    Extends name soft model (model ∪ marks soft model) :=
  marking.extends_marks
    (marking.avoids_of_stable ((stableModel_opened_iff_satisfied normal).mp stable))

theorem Marking.unmarked_marks (marking : Marking name kept soft)
    (avoids : ∀ atom ∈ model, atom.name ≠ name) :
    unmarked name (model ∪ marks soft model) = model := by
  ext atom
  constructor
  · rintro ⟨member | isMark, named⟩
    · exact member
    · exact absurd (marking.name_of_mem_marks isMark).1 named
  · intro member
    exact ⟨.inl member, avoids atom member⟩

/-- Removing the marks is a bijection from the stable models with marks onto the models that are
stable once the rules that they violate are dropped. -/
theorem Marking.bijOn_unmarked (marking : Marking name kept soft) :
    Set.BijOn (unmarked name) {extended | StableModel (markedRules kept soft) extended}
      {model | StableModel (satisfiedRules kept soft model) model} := by
  refine ⟨?_, ?_, ?_⟩
  · intro extended stable
    exact (marking.satisfied_of_stable stable).1
  · intro first firstStable second secondStable same
    rw [(marking.satisfied_of_stable firstStable).2, (marking.satisfied_of_stable secondStable).2,
      same]
  · intro model stable
    exact ⟨model ∪ marks soft model, marking.stable_of_satisfied stable,
      marking.unmarked_marks (marking.avoids_of_stable stable)⟩

/-- Adding the marks of the violated rules is a bijection from the stable models with open heads
onto those with marks. -/
theorem Marking.bijOn (marking : Marking name kept soft)
    (normal : ∀ marked ∈ soft, marked.rule.IsNormal) :
    Set.BijOn (fun model => model ∪ marks soft model)
      {model | StableModel (kept ++ (soft.map MarkedRule.rule).filterMap GroundRule.opened?) model}
      {extended | StableModel (markedRules kept soft) extended} := by
  simp only [stableModel_opened_iff_satisfied normal]
  refine ⟨?_, ?_, ?_⟩
  · intro model stable
    exact marking.stable_of_satisfied stable
  · intro first firstStable second secondStable same
    rw [← marking.unmarked_marks (marking.avoids_of_stable firstStable),
      ← marking.unmarked_marks (marking.avoids_of_stable secondStable)]
    exact congrArg (unmarked name) same
  · intro extended stable
    obtain ⟨isStable, same⟩ := marking.satisfied_of_stable stable
    exact ⟨unmarked name extended, isStable, same.symm⟩

end Marked

end SoftRules
