import SoftRules.Proofs.Encoding.ChoiceSemantics

/-!
The encoding with marks agrees with the encoding with choices. Adding the marks of the violated
rules is a bijection between the stable models of the two outputs, and keeps their cost.
-/

set_option autoImplicit false

namespace SoftRules

namespace Program

/-- No atom of the program has the given name. -/
def Avoids (name : String) (program : Program) : Prop :=
  ∀ rule, .rule rule ∈ program → ∀ plain, rule.unannotated.ground? = some plain →
    plain.Avoids name

/-- The model with the marks of the encoded rules that it violates. -/
def withMarks (mode : Mode) (program : Program) (model : Interpretation) : Interpretation :=
  fun atom => atom ∈ model ∨ ∃ index rule, (index, rule) ∈ program.encodedRules mode ∧
    atom = rule.mark mode.power index ∧ rule.IsViolated model

/-- The readings of the encoded rules, each with its mark. -/
def markedSoftRules (mode : Mode) (program : Program) : List MarkedRule :=
  (program.encodedRules mode).filterMap fun (index, rule) =>
    rule.unannotated.ground?.map fun plain => ⟨rule.mark mode.power index, plain⟩

variable {mode : Mode} {program : Program} {model : Interpretation}

theorem mem_markedSoftRules {marked : MarkedRule} : marked ∈ program.markedSoftRules mode ↔
    ∃ index rule, (index, rule) ∈ program.encodedRules mode ∧
      marked.mark = rule.mark mode.power index ∧
      rule.unannotated.ground? = some marked.rule := by
  simp only [markedSoftRules, List.mem_filterMap, Option.map_eq_some_iff]
  constructor
  · rintro ⟨⟨index, rule⟩, member, plain, ground, rfl⟩
    exact ⟨index, rule, member, rfl, ground⟩
  · rintro ⟨index, rule, member, mark, ground⟩
    refine ⟨(index, rule), member, marked.rule, ground, ?_⟩
    simp only
    rw [← mark]

theorem map_markedSoftRules :
    (program.markedSoftRules mode).map MarkedRule.rule = program.softRules mode := by
  unfold markedSoftRules softRules
  rw [List.map_filterMap]
  congr 1
  funext entry
  simp [Function.comp_def]

theorem withMarks_eq (model : Interpretation) :
    program.withMarks mode model = model ∪ marks (program.markedSoftRules mode) model := by
  ext atom
  apply or_congr_right
  constructor
  · rintro ⟨index, rule, member, rfl, plain, ground, violated⟩
    exact ⟨⟨rule.mark mode.power index, plain⟩,
      mem_markedSoftRules.mpr ⟨index, rule, member, rfl, ground⟩, rfl, violated⟩
  · rintro ⟨marked, isSoft, rfl, violated⟩
    obtain ⟨index, rule, member, mark, ground⟩ := mem_markedSoftRules.mp isSoft
    exact ⟨index, rule, member, mark, marked.rule, ground, violated⟩

theorem mark_injective {power : Int} {first second : Nat × Rule}
    (same : first.2.mark power first.1 = second.2.mark power second.1) : first.1 = second.1 := by
  have index (entry : Nat × Rule) :
      (entry.2.mark power entry.1).arguments.head? = some (.number entry.1) := by
    unfold Rule.mark
    split <;> rfl
  have numbers := (index first).symm.trans ((congrArg (·.arguments.head?) same).trans (index second))
  simp only [Option.some.injEq, Value.number.injEq] at numbers
  exact Int.ofNat.inj numbers

theorem encodedRules_unique {first second : Nat × Rule}
    (isFirst : first ∈ program.encodedRules mode) (isSecond : second ∈ program.encodedRules mode)
    (same : first.1 = second.1) : first = second := by
  have symmetric : Std.Symm fun first second : Nat × Rule => first.1 ≠ second.1 :=
    ⟨fun _ _ different => different.symm⟩
  have unique : (program.encodedRules mode).Pairwise fun first second => first.1 ≠ second.1 := by
    apply (program.encodedRules_pairwise mode).imp
    intro first second less
    exact Nat.ne_of_lt less
  by_contra different
  exact unique.forall isFirst isSecond different same

theorem Avoids.marking (avoids : program.Avoids "unsat") :
    Marking "unsat" (program.keptRules mode) (program.markedSoftRules mode) where
  kept_avoids := by
    intro plain member
    obtain ⟨rule, inProgram, _, ground⟩ := mem_keptRules.mp member
    exact avoids rule inProgram plain ground
  soft_avoids := by
    intro marked isSoft
    obtain ⟨index, rule, member, _, ground⟩ := mem_markedSoftRules.mp isSoft
    exact avoids rule (mem_of_mem_numbered (List.mem_filter.mp member).1) _ ground
  named := by
    intro marked isSoft
    obtain ⟨index, rule, _, mark, _⟩ := mem_markedSoftRules.mp isSoft
    rw [mark]
    rfl
  positive := by
    intro marked isSoft
    obtain ⟨index, rule, _, mark, _⟩ := mem_markedSoftRules.mp isSoft
    rw [mark]
    rfl
  distinct := by
    rintro ⟨mark, plain⟩ isFirst ⟨other, otherPlain⟩ isSecond rfl
    obtain ⟨index, rule, member, named, ground⟩ := mem_markedSoftRules.mp isFirst
    obtain ⟨otherIndex, otherRule, otherMember, otherNamed, otherGround⟩ :=
      mem_markedSoftRules.mp isSecond
    have sameMark : (index, rule).2.mark mode.power (index, rule).1 =
        (otherIndex, otherRule).2.mark mode.power (otherIndex, otherRule).1 :=
      named.symm.trans otherNamed
    cases encodedRules_unique member otherMember (mark_injective sameMark)
    cases ground.symm.trans otherGround
    rfl

section Mark

variable (guarded : program.IsGroundGuarded) (marked : mode.markViolations = true)

include guarded marked

theorem IsGroundGuarded.marked_isGround : IsGround (program.expansion mode 0) := by
  apply guarded.isGround_expansion
  intro index rule member
  obtain ⟨numbered, on⟩ := List.mem_filter.mp member
  obtain ⟨plain, ground, isGuarded⟩ := guarded.rule (mem_of_mem_numbered numbered)
  obtain ⟨body, _, isGround, _⟩ := Rule.marked_reading ground isGuarded on marked index
  exact isGround

/-- The encoded rules leave two rules each. -/
theorem IsGroundGuarded.stableModel_marked_iff :
    StableModel (groundRules (program.expansion mode 0)) model ↔
      StableModel (markedRules (program.keptRules mode) (program.markedSoftRules mode)) model := by
  apply stableModel_expansion_iff
  · intro index rule member plain inExpansion
    obtain ⟨numbered, on⟩ := List.mem_filter.mp member
    obtain ⟨source, ground, isGuarded⟩ := guarded.rule (mem_of_mem_numbered numbered)
    obtain ⟨body, alike, _, rules, _⟩ := Rule.marked_reading ground isGuarded on marked index
    have isSoft : ⟨rule.mark mode.power index, source⟩ ∈ program.markedSoftRules mode :=
      mem_markedSoftRules.mpr ⟨index, rule, member, rfl, ground⟩
    rw [rules, List.mem_pair] at inExpansion
    rcases inExpansion with rfl | rfl
    · exact ⟨_, List.mem_flatMap.mpr ⟨_, isSoft, List.mem_cons_self ..⟩, alike.violation _⟩
    · exact ⟨_, List.mem_flatMap.mpr ⟨_, isSoft, List.mem_cons_of_mem _ (List.mem_cons_self ..)⟩,
        alike.guarded _⟩
  · intro plain inLeft
    obtain ⟨⟨mark, source⟩, isSoft, shape⟩ := List.mem_flatMap.mp inLeft
    obtain ⟨index, rule, member, named, ground⟩ := mem_markedSoftRules.mp isSoft
    obtain ⟨numbered, on⟩ := List.mem_filter.mp member
    obtain ⟨body, alike, _, rules, _⟩ := Rule.marked_reading ground
      (guarded.of_ground (mem_of_mem_numbered numbered) ground) on marked index
    rw [← named] at rules
    refine ⟨index, rule, member, ?_⟩
    rw [rules]
    rcases List.mem_pair.mp shape with rfl | rfl
    · exact ⟨_, List.mem_cons_self .., alike.symm.violation mark⟩
    · exact ⟨_, List.mem_cons_of_mem _ (List.mem_cons_self ..), alike.symm.guarded mark⟩

theorem IsGroundGuarded.charged_marked {extended : Interpretation}
    (isExtension : Extends "unsat" (program.markedSoftRules mode) model extended) :
    List.Forall₂ (Rule.ChargedBy mode.power extended model) (program.encodedRules mode)
      (groundPenalties (program.expansion mode 0)) := by
  apply charged_flatMap
  rintro ⟨index, rule⟩ numbered on
  obtain ⟨plain, ground, isGuarded⟩ := guarded.rule (mem_of_mem_numbered numbered)
  obtain ⟨body, _, _, _, penalties⟩ := Rule.marked_reading ground isGuarded on marked index
  have isSoft : ⟨rule.mark mode.power index, plain⟩ ∈ program.markedSoftRules mode :=
    mem_markedSoftRules.mpr ⟨index, rule, List.mem_filter.mpr ⟨numbered, on⟩, rfl, ground⟩
  refine ⟨_, penalties, rfl, ?_⟩
  rw [Rule.isViolated_iff ground, ← isExtension.marked _ isSoft]
  simp [GroundLiteral.Holds, GroundFormula.Holds]

theorem IsGroundGuarded.cost_marked {extended : Interpretation}
    (isExtension : Extends "unsat" (program.markedSoftRules mode) model extended)
    (priority : Int) :
    cost (groundPenalties (program.expansion mode 0)) extended priority =
      ((program.violatedRules mode model).map fun rule =>
        rule.price mode.power priority).sum := by
  rw [cost_eq_sum (program.encodedRules_pairwise mode) (guarded.charged_marked marked isExtension),
    violatedRules, List.map_map]
  rfl

end Mark

theorem IsGroundNormal.marked_isGround (normal : program.IsGroundNormal)
    (marked : mode.markViolations = true) : IsGround (program.expansion mode 0) :=
  normal.isGuarded.marked_isGround marked

theorem IsGroundNormal.stableModel_marked_iff (normal : program.IsGroundNormal)
    (marked : mode.markViolations = true) :
    StableModel (groundRules (program.expansion mode 0)) model ↔
      StableModel (markedRules (program.keptRules mode) (program.markedSoftRules mode)) model :=
  normal.isGuarded.stableModel_marked_iff marked

theorem IsGroundNormal.cost_marked (normal : program.IsGroundNormal)
    (marked : mode.markViolations = true) {extended : Interpretation}
    (isExtension : Extends "unsat" (program.markedSoftRules mode) model extended)
    (priority : Int) :
    cost (groundPenalties (program.expansion mode 0)) extended priority =
      ((program.violatedRules mode model).map fun rule =>
        rule.price mode.power priority).sum :=
  normal.isGuarded.cost_marked marked isExtension priority

/-- Whether violations are marked does not matter for whether a program can be encoded. If it can,
adding the marks of the violated rules maps the stable models of the output without marks one to
one onto those of the output with marks, and a model costs as much as its image. -/
theorem marked_encoding_agrees {output : Program} (normal : program.IsGroundNormal)
    (avoids : program.Avoids "unsat") (unswitched : mode.switchPenalties = false)
    (encoded : (program.encode mode).result = .ok output) :
    ∃ compact marked,
      (program.encode { mode with markViolations := false }).result = .ok compact ∧
      (program.encode { mode with markViolations := true }).result = .ok marked ∧
      compact.IsGround ∧ marked.IsGround ∧
      Set.BijOn (program.withMarks mode) {model | StableModel compact.groundRules model}
        {model | StableModel marked.groundRules model} ∧
      ∀ model, StableModel compact.groundRules model → ∀ priority,
        cost marked.groundPenalties (program.withMarks mode model) priority =
          cost compact.groundPenalties model priority := by
  have encodable := ((encode_ground_ok_iff normal.hasGroundRules).mp encoded).1
  have marking : Marking "unsat" (program.keptRules mode) (program.markedSoftRules mode) :=
    avoids.marking
  have softNormal : ∀ marked ∈ program.markedSoftRules mode, marked.rule.IsNormal := by
    intro marked isSoft
    obtain ⟨index, rule, member, _, ground⟩ := mem_markedSoftRules.mp isSoft
    exact normal.of_ground (mem_of_mem_numbered (List.mem_filter.mp member).1) ground
  have compact_iff (model : Interpretation) :
      StableModel (groundRules (program.expansion { mode with markViolations := false } 0)) model ↔
        StableModel (program.keptRules mode ++ ((program.markedSoftRules mode).map
          MarkedRule.rule).filterMap GroundRule.opened?) model := by
    rw [map_markedSoftRules]
    exact normal.stableModel_choice_iff rfl unswitched
  have marked_iff (model : Interpretation) :
      StableModel (groundRules (program.expansion { mode with markViolations := true } 0)) model ↔
        StableModel (markedRules (program.keptRules mode) (program.markedSoftRules mode)) model :=
    normal.stableModel_marked_iff rfl
  have marks_eq : program.withMarks mode =
      fun model => model ∪ marks (program.markedSoftRules mode) model := funext withMarks_eq
  refine ⟨_, _, (encode_ground_ok_iff normal.hasGroundRules).mpr ⟨encodable, rfl⟩,
    (encode_ground_ok_iff normal.hasGroundRules).mpr ⟨encodable, rfl⟩,
    normal.choice_isGround rfl unswitched, normal.marked_isGround rfl, ?_, ?_⟩
  · simp only [compact_iff, marked_iff, marks_eq]
    exact marking.bijOn softNormal
  · intro model stable priority
    have opened := (compact_iff model).mp stable
    have isExtension := marking.extends_of_opened softNormal opened
    rw [← withMarks_eq] at isExtension
    calc cost (groundPenalties (program.expansion { mode with markViolations := true } 0))
          (program.withMarks mode model) priority
        = ((program.violatedRules mode model).map fun rule =>
            rule.price mode.power priority).sum :=
          @IsGroundNormal.cost_marked { mode with markViolations := true } program model normal rfl
            _ isExtension priority
      _ = cost (groundPenalties (program.expansion { mode with markViolations := false } 0))
            model priority :=
          (@IsGroundNormal.cost_choice { mode with markViolations := false } program normal rfl
            unswitched model priority).symm

theorem rivals_avoids_of {name : String} (fresh : name ∉ ["a", "b", "c"]) :
    rivals.Avoids name := by
  simp only [List.mem_cons, List.not_mem_nil, or_false, not_or] at fresh
  obtain ⟨notA, notB, notC⟩ := fresh
  intro rule member plain ground
  simp only [rivals, List.mem_cons, List.not_mem_nil, or_false, Statement.rule.injEq] at member
  rcases member with rfl | rfl | rfl
  · cases ground
    exact ⟨by simp [GroundHead.Avoids, Ne.symm notA], by simp [GroundFormula.Avoids, Ne.symm notB]⟩
  · cases ground
    exact ⟨trivial, by simp [GroundFormula.Avoids, Ne.symm notA, Ne.symm notB]⟩
  · cases ground
    exact ⟨by simp [GroundHead.Avoids, Ne.symm notC], by simp⟩

theorem rivals_avoids : rivals.Avoids "unsat" := rivals_avoids_of (by decide)

theorem marked_encoding_agrees_rivals :
    rivals.IsGroundNormal ∧ rivals.Avoids "unsat" ∧
      ∃ compact marked,
        (rivals.encode { encodeHard := true }).result = .ok compact ∧
        (rivals.encode { encodeHard := true, markViolations := true }).result = .ok marked ∧
        compact.IsGround ∧ marked.IsGround ∧
        Set.BijOn (rivals.withMarks { encodeHard := true })
          {model | StableModel compact.groundRules model}
          {model | StableModel marked.groundRules model} ∧
        ∀ model, StableModel compact.groundRules model → ∀ priority,
          cost marked.groundPenalties (rivals.withMarks { encodeHard := true } model) priority =
            cost compact.groundPenalties model priority := by
  obtain ⟨output, encoded⟩ := rivals_encodable
  have agrees := marked_encoding_agrees rivals_isGroundNormal rivals_avoids rfl encoded
  exact ⟨rivals_isGroundNormal, rivals_avoids, agrees⟩

end Program

end SoftRules
