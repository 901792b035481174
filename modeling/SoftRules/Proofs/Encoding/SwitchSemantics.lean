import SoftRules.Proofs.Encoding.MarkSemantics
import SoftRules.Proofs.Semantics.Switch

/-!
The encoding with penalties that can be switched agrees with the one whose penalties are always on.

The two outputs have the same rules, and the penalties of soft rules ask for the switch in one of
them. Without the switch the stable models are the same and soft rules cost nothing. Stating the
switch adds it to the stable models, and they cost what they cost where nothing is switched.
-/

set_option autoImplicit false

namespace SoftRules

/-- The atom that switches the penalties of soft rules on. -/
def switchAtom : GroundAtom where
  name := "ext_helper"
  arguments := []

/-- The fact that switches the penalties of soft rules on. -/
def switchFact : Statement := .rule { head := .literal (switchLiteral none) }

/-- A statement, and the one in its place if the penalties of soft rules can be switched. -/
inductive Statement.Switched : Statement → Statement → Prop
  | rule (content : Rule) : Switched (.rule content) (.rule content)
  | penalty {constraint switched : WeakConstraint}
      (read : switched.ground? = constraint.ground?.map (GroundPenalty.switchedBy switchAtom)) :
      Switched (.weakConstraint constraint) (.weakConstraint switched)

theorem BodyElement.ground_switch (origin : Origin) :
    (BodyElement.literal (switchLiteral origin)).ground? = some ⟨.plain, .atom switchAtom⟩ := rfl

theorem Penalty.switched (penalty : Penalty) (body : List BodyElement) (origin place : Origin) :
    Statement.Switched (penalty.weakConstraint body origin)
      (penalty.weakConstraint
        ((if penalty.priority == 0 then [.literal (switchLiteral place)] else []) ++ body)
        origin) := by
  refine .penalty ?_
  have priority : (Term.number penalty.priority).integer? = some penalty.priority := rfl
  simp only [WeakConstraint.ground?, priority]
  cases ground : body.mapM BodyElement.ground? with
  | none => by_cases soft : penalty.priority = 0 <;> simp [soft, ground]
  | some literals =>
      by_cases soft : penalty.priority = 0
      · simp [soft, ground, BodyElement.ground_switch, GroundPenalty.switchedBy]
      · simp [soft, ground, GroundPenalty.switchedBy]

theorem choiceEncoding_switched (mode : Mode) (penalty : Penalty) (origin : Origin) (head : Head)
    (notHead : Literal) (body : List BodyElement) :
    List.Forall₂ Statement.Switched
      (choiceEncoding { mode with switchPenalties := false } penalty origin head notHead body)
      (choiceEncoding { mode with switchPenalties := true } penalty origin head notHead body) := by
  unfold choiceEncoding
  cases head.choice? with
  | none => exact .cons (penalty.switched body origin head.origin) .nil
  | some choice =>
      exact .cons (.rule _)
        (.cons (penalty.switched (.literal notHead :: body) origin head.origin) .nil)

section Expansion

variable {mode : Mode} (compact : mode.markViolations = false)

include compact

theorem ProfiledRule.expansion_switched (rule : ProfiledRule) (index : Nat) (origin : Origin) :
    List.Forall₂ Statement.Switched
      (rule.expansion { mode with switchPenalties := false } index origin)
      (rule.expansion { mode with switchPenalties := true } index origin) := by
  unfold ProfiledRule.expansion
  simp only [compact, Bool.false_eq_true, if_false]
  cases rule.head.negation? with
  | none => exact .cons (.rule _) .nil
  | some notHead => exact choiceEncoding_switched mode _ _ _ _ _

theorem Rule.expansion_switched (rule : Rule) (index : Nat) :
    List.Forall₂ Statement.Switched
      (rule.expansion { mode with switchPenalties := false } index)
      (rule.expansion { mode with switchPenalties := true } index) := by
  unfold Rule.expansion
  by_cases on : rule.isEncoded mode = true
  · rw [if_pos (by exact on), if_pos (by exact on)]
    exact (rule.profiled mode.power).expansion_switched compact index rule.origin
  · rw [if_neg (by exact on), if_neg (by exact on)]
    exact .cons (.rule rule) .nil

theorem Program.expansion_switched (program : Program) (index : Nat) :
    List.Forall₂ Statement.Switched
      (program.expansion { mode with switchPenalties := false } index)
      (program.expansion { mode with switchPenalties := true } index) := by
  unfold Program.expansion
  induction program.numbered index with
  | nil => exact .nil
  | cons entry entries inductionHypothesis =>
      exact List.rel_append (entry.2.expansion_switched compact entry.1) inductionHypothesis

end Expansion

namespace Program

section Switched

variable {fixed switched : Program} (related : List.Forall₂ Statement.Switched fixed switched)

include related

theorem groundRules_switched : switched.groundRules = fixed.groundRules := by
  unfold groundRules
  induction related with
  | nil => rfl
  | cons first _ inductionHypothesis =>
      rw [List.filterMap_cons, List.filterMap_cons, inductionHypothesis]
      cases first with
      | rule content => rfl
      | penalty read => rfl

theorem groundPenalties_switched :
    switched.groundPenalties =
      fixed.groundPenalties.map (GroundPenalty.switchedBy switchAtom) := by
  unfold groundPenalties
  induction related with
  | nil => rfl
  | cons first _ inductionHypothesis =>
      rw [List.filterMap_cons, List.filterMap_cons, inductionHypothesis]
      cases first with
      | rule content => rfl
      | @penalty constraint _ read =>
          simp only [read]
          cases constraint.ground? with
          | none => rfl
          | some penalty => rfl

theorem isGround_switched (ground : fixed.IsGround) : switched.IsGround := by
  induction related with
  | nil => exact ground
  | cons first _ inductionHypothesis =>
      obtain ⟨here, others⟩ := List.forall_mem_cons.mp ground
      refine List.forall_mem_cons.mpr ⟨?_, inductionHypothesis others⟩
      cases first with
      | rule content => exact here
      | penalty read =>
          simp only [read, Option.isSome_map]
          exact here

end Switched

theorem groundRules_switchFact (program : Program) :
    groundRules (program ++ [switchFact]) = program.groundRules ++ [switchAtom.fact] :=
  List.filterMap_append

theorem groundPenalties_switchFact (program : Program) :
    groundPenalties (program ++ [switchFact]) = program.groundPenalties := by
  rw [groundPenalties_append]
  exact List.append_nil _

theorem isGround_switchFact {program : Program} (ground : program.IsGround) :
    IsGround (program ++ [switchFact]) := by
  intro statement member
  rcases List.mem_append.mp member with member | isFact
  · exact ground statement member
  · cases List.mem_singleton.mp isFact
    exact rfl

variable {mode : Mode} {program : Program} {name : String}

/-- Leaving the heads open brings in no atom. -/
theorem IsGroundGuarded.choice_ignores (guarded : program.IsGroundGuarded)
    (avoids : program.Avoids name) (compact : mode.markViolations = false)
    (unswitched : mode.switchPenalties = false) :
    ∀ plain ∈ groundRules (program.expansion mode 0), plain.Ignores name := by
  intro plain member
  obtain ⟨index, rule, numbered, member⟩ := mem_groundRules_expansion.mp member
  have inProgram := mem_of_mem_numbered numbered
  by_cases on : rule.isEncoded mode = true
  · obtain ⟨source, ground, isGuarded⟩ := guarded.rule inProgram
    obtain ⟨body, due, alike, _, rules, _⟩ :=
      Rule.compact_reading ground isGuarded on compact unswitched index
    rw [rules, Option.mem_toList] at member
    obtain ⟨released, isReleased, releasedAlike⟩ := alike.released? member
    have released_avoids := (avoids rule inProgram source ground).released? isReleased
    exact released_avoids.ignores.of_alike releasedAlike
  · have off := Bool.eq_false_iff.mpr on
    rw [Rule.expansion_of_not_encoded off] at member
    have read : rule.ground? = some plain := by simpa [groundRules] using member
    rw [← Rule.unannotated_of_not_encoded off] at read
    exact (avoids rule inProgram plain read).ignores

theorem Avoids.violatedRules_eq (avoids : program.Avoids name) {first second : Interpretation}
    (agree : AgreeBeyond name first second) :
    program.violatedRules mode first = program.violatedRules mode second := by
  have same (entry : Nat × Rule) (member : entry ∈ program.encodedRules mode) :
      entry.2.IsViolated first ↔ entry.2.IsViolated second := by
    have inProgram := mem_of_mem_numbered (List.mem_filter.mp member).1
    apply exists_congr
    intro plain
    apply and_congr_right
    intro ground
    rw [agree.satisfied (avoids entry.2 inProgram plain ground)]
  unfold violatedRules
  congr 1
  apply List.filter_congr
  intro entry member
  rw [decide_eq_decide]
  exact same entry member

theorem IsGroundNormal.cost_choice_eq (normal : program.IsGroundNormal)
    (avoids : program.Avoids name) (compact : mode.markViolations = false)
    (unswitched : mode.switchPenalties = false) {first second : Interpretation}
    (agree : AgreeBeyond name first second) (priority : Int) :
    cost (groundPenalties (program.expansion mode 0)) first priority =
      cost (groundPenalties (program.expansion mode 0)) second priority := by
  rw [normal.cost_choice compact unswitched, normal.cost_choice compact unswitched,
    avoids.violatedRules_eq agree]

/-- Whether penalties can be switched does not matter for whether a program can be encoded. If it
can, both outputs have the same stable models, and stating the switch adds it to each of them. With
the switch a model costs what it costs where nothing can be switched. Without it soft rules cost
nothing, and all else costs the same. -/
theorem switched_encoding_agrees {output : Program} (normal : program.IsGroundNormal)
    (avoids : program.Avoids "ext_helper") (compact : mode.markViolations = false)
    (encoded : (program.encode mode).result = .ok output) :
    ∃ fixed switched,
      (program.encode { mode with switchPenalties := false }).result = .ok fixed ∧
      (program.encode { mode with switchPenalties := true }).result = .ok switched ∧
      fixed.IsGround ∧ switched.IsGround ∧ IsGround (switched ++ [switchFact]) ∧
      Set.BijOn (insert switchAtom) {model | StableModel fixed.groundRules model}
        {model | StableModel (groundRules (switched ++ [switchFact])) model} ∧
      (∀ model, StableModel switched.groundRules model ↔ StableModel fixed.groundRules model) ∧
      ∀ model, StableModel fixed.groundRules model →
        (∀ priority, cost (groundPenalties (switched ++ [switchFact])) (insert switchAtom model)
          priority = cost fixed.groundPenalties model priority) ∧
        cost switched.groundPenalties model 0 = 0 ∧
        ∀ priority, priority ≠ 0 →
          cost switched.groundPenalties model priority =
            cost fixed.groundPenalties model priority := by
  have encodable := ((encode_ground_ok_iff normal.hasGroundRules).mp encoded).1
  have related := program.expansion_switched compact 0
  have ground : IsGround (program.expansion { mode with switchPenalties := false } 0) :=
    normal.choice_isGround compact rfl
  have free : ∀ rule ∈ groundRules (program.expansion { mode with switchPenalties := false } 0),
      rule.Ignores switchAtom.name := normal.isGuarded.choice_ignores avoids compact rfl
  refine ⟨_, _, (encode_ground_ok_iff normal.hasGroundRules).mpr ⟨encodable, rfl⟩,
    (encode_ground_ok_iff normal.hasGroundRules).mpr ⟨encodable, rfl⟩, ground,
    isGround_switched related ground, ?_, ?_, ?_, ?_⟩
  · exact isGround_switchFact (isGround_switched related ground)
  · rw [groundRules_switchFact, groundRules_switched related]
    exact bijOn_insert_fact free
  · intro model
    rw [groundRules_switched related]
  · intro model stable
    have absent : switchAtom ∉ model := fun member => stable.name_ne free _ member rfl
    rw [groundPenalties_switchFact, groundPenalties_switched related]
    refine ⟨?_, cost_switchedBy_off _ absent, ?_⟩
    · intro priority
      have agree := agreeBeyond_insert switchAtom model
      rw [cost_switchedBy _ fun _ => Set.mem_insert switchAtom model]
      exact (@IsGroundNormal.cost_choice_eq { mode with switchPenalties := false } program _ normal
        avoids compact rfl _ _ agree priority).symm
    · intro priority other
      exact cost_switchedBy _ fun zero => absurd zero other

theorem switched_encoding_agrees_rivals :
    rivals.IsGroundNormal ∧ rivals.Avoids "ext_helper" ∧
      ∃ fixed switched,
        (rivals.encode { encodeHard := true }).result = .ok fixed ∧
        (rivals.encode { encodeHard := true, switchPenalties := true }).result = .ok switched ∧
        fixed.IsGround ∧ switched.IsGround ∧ IsGround (switched ++ [switchFact]) ∧
        Set.BijOn (insert switchAtom) {model | StableModel fixed.groundRules model}
          {model | StableModel (groundRules (switched ++ [switchFact])) model} ∧
        (∀ model, StableModel switched.groundRules model ↔
          StableModel fixed.groundRules model) ∧
        ∀ model, StableModel fixed.groundRules model →
          (∀ priority, cost (groundPenalties (switched ++ [switchFact]))
            (insert switchAtom model) priority = cost fixed.groundPenalties model priority) ∧
          cost switched.groundPenalties model 0 = 0 ∧
          ∀ priority, priority ≠ 0 →
            cost switched.groundPenalties model priority =
              cost fixed.groundPenalties model priority := by
  obtain ⟨output, encoded⟩ := rivals_encodable
  have avoids : rivals.Avoids "ext_helper" := rivals_avoids_of (by decide)
  have agrees := switched_encoding_agrees rivals_isGroundNormal avoids rfl encoded
  exact ⟨rivals_isGroundNormal, avoids, agrees⟩

end Program

end SoftRules
