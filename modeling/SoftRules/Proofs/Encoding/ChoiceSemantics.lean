import SoftRules.Proofs.Encoding.EncodedRules

/-!
Correctness of the encoding with choices.

The stable models of an encoded program of normal rules are the interpretations that are stable
once the encoded rules that they violate are dropped, and each violation costs the weight of its
rule.
-/

set_option autoImplicit false

namespace SoftRules

namespace Program

open Classical in
/-- The rules that are not encoded and those that the interpretation satisfies, without their
weights. -/
noncomputable def satisfiedPart (mode : Mode) (program : Program) (model : Interpretation) :
    Program :=
  program.filterMap fun statement =>
    match statement with
    | .rule rule =>
        if rule.isEncoded mode ∧ rule.IsViolated model then none
        else some (.rule rule.unannotated)
    | other => some other

variable {mode : Mode} {program : Program} {model : Interpretation} {plain : GroundRule}

theorem mem_groundRules_satisfiedPart :
    plain ∈ groundRules (program.satisfiedPart mode model) ↔
      ∃ rule, .rule rule ∈ program ∧ ¬ (rule.isEncoded mode = true ∧ rule.IsViolated model) ∧
        rule.unannotated.ground? = some plain := by
  simp only [groundRules, satisfiedPart, List.mem_filterMap]
  constructor
  · rintro ⟨statement, ⟨source, member, kept⟩, ground⟩
    split at kept
    · next rule =>
        split at kept
        · cases kept
        · next fine =>
            cases kept
            exact ⟨rule, member, fine, ground⟩
    · next other notRule =>
        cases kept
        split at ground
        · exact absurd rfl (notRule _)
        · cases ground
  · rintro ⟨rule, member, fine, ground⟩
    exact ⟨.rule rule.unannotated, ⟨.rule rule, member, if_neg fine⟩, ground⟩

open Classical in
/-- The part of the program that an interpretation satisfies, split by whether the rules are
encoded. -/
theorem stableModel_satisfiedPart_iff :
    StableModel (groundRules (program.satisfiedPart mode model)) model ↔
      StableModel (program.keptRules mode ++
        (program.softRules mode).filter (·.Satisfied model)) model := by
  apply stableModel_congr
  · intro plain member
    obtain ⟨rule, member, fine, ground⟩ := mem_groundRules_satisfiedPart.mp member
    refine ⟨plain, ?_, .refl plain⟩
    by_cases on : rule.isEncoded mode = true
    · have satisfied : plain.Satisfied model := by
        by_contra violated
        exact fine ⟨on, plain, ground, violated⟩
      apply List.mem_append_right
      exact List.mem_filter.mpr ⟨mem_softRules.mpr ⟨rule, member, on, ground⟩, by simpa⟩
    · apply List.mem_append_left
      exact mem_keptRules.mpr ⟨rule, member, Bool.eq_false_iff.mpr on, ground⟩
  · intro plain member
    refine ⟨plain, mem_groundRules_satisfiedPart.mpr ?_, .refl plain⟩
    rcases List.mem_append.mp member with member | member
    · obtain ⟨rule, member, off, ground⟩ := mem_keptRules.mp member
      exact ⟨rule, member, by simp [off], ground⟩
    · obtain ⟨member, satisfied⟩ := List.mem_filter.mp member
      obtain ⟨rule, member, on, ground⟩ := mem_softRules.mp member
      refine ⟨rule, member, ?_, ground⟩
      rintro ⟨_, violated⟩
      exact (Rule.isViolated_iff ground model).mp violated (of_decide_eq_true satisfied)

section Choice

variable (guarded : program.IsGroundGuarded) (compact : mode.markViolations = false)
  (unswitched : mode.switchPenalties = false)

include guarded compact unswitched

theorem IsGroundGuarded.choice_isGround : IsGround (program.expansion mode 0) := by
  apply guarded.isGround_expansion
  intro index rule member
  obtain ⟨numbered, on⟩ := List.mem_filter.mp member
  obtain ⟨plain, ground, isGuarded⟩ := guarded.rule (mem_of_mem_numbered numbered)
  obtain ⟨body, due, _, isGround, _⟩ :=
    Rule.compact_reading ground isGuarded on compact unswitched index
  exact isGround

/-- The encoded rules leave choices without bounds. -/
theorem IsGroundGuarded.stableModel_choice_iff :
    StableModel (groundRules (program.expansion mode 0)) model ↔
      StableModel (program.keptRules mode ++
        (program.softRules mode).filterMap GroundRule.released?) model := by
  apply stableModel_expansion_iff
  · intro index rule member plain inExpansion
    obtain ⟨numbered, on⟩ := List.mem_filter.mp member
    have inProgram := mem_of_mem_numbered numbered
    obtain ⟨source, ground, isGuarded⟩ := guarded.rule inProgram
    obtain ⟨body, due, alike, _, rules, _⟩ :=
      Rule.compact_reading ground isGuarded on compact unswitched index
    rw [rules, Option.mem_toList] at inExpansion
    obtain ⟨released, isReleased, releasedAlike⟩ := alike.released? inExpansion
    have isSoft := mem_softRules.mpr ⟨rule, inProgram, on, ground⟩
    exact ⟨released, List.mem_filterMap.mpr ⟨source, isSoft, isReleased⟩, releasedAlike⟩
  · intro plain member
    obtain ⟨source, isSoft, isReleased⟩ := List.mem_filterMap.mp member
    obtain ⟨rule, inProgram, on, ground⟩ := mem_softRules.mp isSoft
    obtain ⟨index, numbered⟩ := exists_mem_numbered inProgram 0
    obtain ⟨body, due, alike, _, rules, _⟩ := Rule.compact_reading ground
      (guarded.of_ground inProgram ground) on compact unswitched index
    obtain ⟨released, isReleased', releasedAlike⟩ := alike.symm.released? isReleased
    refine ⟨index, rule, List.mem_filter.mpr ⟨numbered, on⟩, released, ?_, releasedAlike⟩
    rw [rules, Option.mem_toList]
    exact isReleased'

theorem IsGroundGuarded.charged_choice (model : Interpretation) :
    List.Forall₂ (Rule.ChargedBy mode.power model model) (program.encodedRules mode)
      (groundPenalties (program.expansion mode 0)) := by
  apply charged_flatMap
  rintro ⟨index, rule⟩ numbered on
  obtain ⟨plain, ground, isGuarded⟩ := guarded.rule (mem_of_mem_numbered numbered)
  obtain ⟨body, due, _, _, _, penalties, isDue⟩ :=
    Rule.compact_reading ground isGuarded on compact unswitched index
  refine ⟨_, penalties, rfl, ?_⟩
  rw [Rule.isViolated_iff ground]
  exact isDue model

theorem IsGroundGuarded.cost_choice (model : Interpretation) (priority : Int) :
    cost (groundPenalties (program.expansion mode 0)) model priority =
      ((program.violatedRules mode model).map fun rule =>
        rule.price mode.power priority).sum := by
  rw [cost_eq_sum (program.encodedRules_pairwise mode)
    (guarded.charged_choice compact unswitched model), violatedRules, List.map_map]
  rfl

end Choice

theorem IsGroundGuarded.satisfiedPart_isGround (guarded : program.IsGroundGuarded) :
    IsGround (program.satisfiedPart mode model) := by
  intro statement member
  obtain ⟨source, member, kept⟩ := List.mem_filterMap.mp member
  obtain ⟨rule, rfl, plain, ground, _⟩ := guarded source member
  simp only at kept
  split at kept
  · cases kept
  · cases kept
    simp [ground]

section Normal

variable (normal : program.IsGroundNormal) (compact : mode.markViolations = false)
  (unswitched : mode.switchPenalties = false)

include normal compact unswitched

theorem IsGroundNormal.choice_isGround : IsGround (program.expansion mode 0) :=
  normal.isGuarded.choice_isGround compact unswitched

/-- Normal rules leave their open versions. -/
theorem IsGroundNormal.stableModel_choice_iff :
    StableModel (groundRules (program.expansion mode 0)) model ↔
      StableModel (program.keptRules mode ++
        (program.softRules mode).filterMap GroundRule.opened?) model := by
  have same : (program.softRules mode).filterMap GroundRule.opened? =
      (program.softRules mode).filterMap GroundRule.released? := by
    apply List.filterMap_congr
    intro plain member
    obtain ⟨rule, inProgram, _, ground⟩ := mem_softRules.mp member
    exact (normal.of_ground inProgram ground).released?_eq.symm
  rw [same]
  exact normal.isGuarded.stableModel_choice_iff compact unswitched

theorem IsGroundNormal.cost_choice (model : Interpretation) (priority : Int) :
    cost (groundPenalties (program.expansion mode 0)) model priority =
      ((program.violatedRules mode model).map fun rule =>
        rule.price mode.power priority).sum :=
  normal.isGuarded.cost_choice compact unswitched model priority

end Normal

theorem IsGroundNormal.satisfiedPart_isGround (normal : program.IsGroundNormal) :
    IsGround (program.satisfiedPart mode model) := normal.isGuarded.satisfiedPart_isGround

theorem sum_price_zero (power : Int) (rules : List Rule) :
    (rules.map fun rule => rule.price power 0).sum =
      (rules.filterMap fun rule => rule.weight? power).sum := by
  induction rules with
  | nil => rfl
  | cons rule rules inductionHypothesis =>
      rw [List.map_cons, List.sum_cons, inductionHypothesis, List.filterMap_cons, Rule.price]
      cases rule.weight? power with
      | none => simp
      | some weight => simp

theorem sum_price_one {power : Int} {rules : List Rule}
    (read : ∀ rule ∈ rules, (rule.weight? power).isNone = rule.annotations.isEmpty) :
    (rules.map fun rule => rule.price power 1).sum =
      rules.countP fun rule => rule.annotations.isEmpty := by
  induction rules with
  | nil => rfl
  | cons rule rules inductionHypothesis =>
      have first := read rule (List.mem_cons_self ..)
      have others := inductionHypothesis fun other member =>
        read other (List.mem_cons_of_mem _ member)
      rw [List.map_cons, List.sum_cons, others, List.countP_cons, ← first, Rule.price]
      cases rule.weight? power with
      | none => simp [Int.add_comm]
      | some weight => simp

/-- A rule that was encoded has a weight exactly if it carries an annotation. -/
theorem IsGroundNormal.weight?_isNone (normal : program.IsGroundNormal)
    (encodable : ∀ rule, .rule rule ∈ program → rule.IsEncodable mode.power) :
    ∀ rule ∈ program.violatedRules mode model,
      (rule.weight? mode.power).isNone = rule.annotations.isEmpty := by
  intro rule violated
  obtain ⟨⟨index, source⟩, member, rfl⟩ := List.mem_map.mp violated
  obtain ⟨member, _⟩ := List.mem_filter.mp member
  obtain ⟨numbered, on⟩ := List.mem_filter.mp member
  have inProgram := mem_of_mem_numbered numbered
  have hasBody : source.body ≠ [] := by
    simp only [Rule.isEncoded, Bool.and_eq_true, Bool.not_eq_true', List.isEmpty_eq_false_iff] at on
    exact on.1
  rcases encodable source inProgram with empty | ⟨profiled, ok⟩
  · exact absurd empty hasBody
  · have hard := ((normal.rule inProgram).isGround.profile_ok ok).2
    rw [← hard]
    unfold Rule.weight?
    cases source.ruleWeight mode.power with
    | hard => rfl
    | soft weight => rfl

/-- An interpretation is a stable model of the encoded program exactly if it is one of the rules
that are not encoded together with the encoded rules that it satisfies. Each violated soft rule
costs its weight at priority `0`, and each violated hard rule costs `1` at priority `1`. -/
theorem choice_encoding_correct {output : Program} (normal : program.IsGroundNormal)
    (compact : mode.markViolations = false) (unswitched : mode.switchPenalties = false)
    (encoded : (program.encode mode).result = .ok output) :
    output.IsGround ∧ ∀ model, (program.satisfiedPart mode model).IsGround ∧
      (StableModel output.groundRules model ↔
        StableModel (program.satisfiedPart mode model).groundRules model) ∧
      cost output.groundPenalties model 0 =
        ((program.violatedRules mode model).filterMap fun rule => rule.weight? mode.power).sum ∧
      cost output.groundPenalties model 1 =
        (program.violatedRules mode model).countP fun rule => rule.annotations.isEmpty := by
  obtain ⟨encodable, rfl⟩ := (encode_ground_ok_iff normal.hasGroundRules).mp encoded
  refine ⟨normal.choice_isGround compact unswitched, ?_⟩
  intro model
  refine ⟨normal.satisfiedPart_isGround, ?_, ?_, ?_⟩
  · have softNormal : ∀ rule ∈ program.softRules mode, rule.IsNormal := by
      intro plain member
      obtain ⟨rule, inProgram, _, ground⟩ := mem_softRules.mp member
      exact normal.of_ground inProgram ground
    rw [normal.stableModel_choice_iff compact unswitched, stableModel_satisfiedPart_iff]
    exact stableModel_opened_iff softNormal
  · rw [normal.cost_choice compact unswitched, sum_price_zero]
  · rw [normal.cost_choice compact unswitched,
      sum_price_one (normal.weight?_isNone encodable)]

theorem choice_encoding_correct_rivals :
    rivals.IsGroundNormal ∧
      ∃ output, (rivals.encode { encodeHard := true }).result = .ok output ∧
        output.IsGround ∧ ∀ model,
          (rivals.satisfiedPart { encodeHard := true } model).IsGround ∧
          (StableModel output.groundRules model ↔
            StableModel (rivals.satisfiedPart { encodeHard := true } model).groundRules model) ∧
          cost output.groundPenalties model 0 =
            ((rivals.violatedRules { encodeHard := true } model).filterMap fun rule =>
              rule.weight? defaultPower).sum ∧
          cost output.groundPenalties model 1 =
            (rivals.violatedRules { encodeHard := true } model).countP fun rule =>
              rule.annotations.isEmpty := by
  obtain ⟨output, encoded⟩ := rivals_encodable
  exact ⟨rivals_isGroundNormal, output, encoded,
    choice_encoding_correct rivals_isGroundNormal rfl rfl encoded⟩

end Program

end SoftRules
