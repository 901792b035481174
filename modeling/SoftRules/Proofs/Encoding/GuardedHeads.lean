import SoftRules.Proofs.Encoding.MarkSemantics

/-!
The two encodings of rules with a bounded choice in the head.

With marks the rule keeps its bounds and is switched off where it is violated. Without marks it
becomes a choice without bounds, which still supports its elements where the bounds fail. So the
encoding with marks has the stable models of the other one that need no such support
(`Program.guarded_encodings_compare`), and it can have fewer (`Program.bounded_pair_disagrees`).
-/

set_option autoImplicit false

namespace SoftRules

theorem GroundAggregate.size_eq_length {aggregate : GroundAggregate} {model : Interpretation}
    (distinct : aggregate.elements.Nodup) (allTrue : ∀ atom ∈ aggregate.elements, atom ∈ model) :
    aggregate.size model = aggregate.elements.length := by
  classical
  unfold GroundAggregate.size
  rw [Finset.filter_true_of_mem fun atom member => allTrue atom (List.mem_toFinset.mp member)]
  exact List.toFinset_card_of_nodup distinct

namespace Program

variable {mode : Mode} {program : Program} {model : Interpretation}

/-- The models of the choices without bounds include those that are stable once the violated rules
are dropped. -/
theorem IsGroundGuarded.stable_choice (guarded : program.IsGroundGuarded)
    (compact : mode.markViolations = false) (unswitched : mode.switchPenalties = false)
    (stable : StableModel (program.satisfiedPart mode model).groundRules model) :
    StableModel (groundRules (program.expansion mode 0)) model :=
  (guarded.stableModel_choice_iff compact unswitched).mpr
    (stableModel_satisfiedPart_iff.mp stable).released

/-- The two are the same for a model in which no violated rule has a true atom in its head. -/
theorem IsGroundGuarded.stable_satisfiedPart (guarded : program.IsGroundGuarded)
    (compact : mode.markViolations = false) (unswitched : mode.switchPenalties = false)
    (stable : StableModel (groundRules (program.expansion mode 0)) model)
    (unsupported : ∀ rule ∈ program.violatedRules mode model, ∀ plain,
      rule.unannotated.ground? = some plain → ∀ atom ∈ model, atom ∉ plain.head.options) :
    StableModel (program.satisfiedPart mode model).groundRules model := by
  apply stableModel_satisfiedPart_iff.mpr
  apply ((guarded.stableModel_choice_iff compact unswitched).mp stable).of_released
  intro plain isSoft violated
  obtain ⟨rule, inProgram, on, ground⟩ := mem_softRules.mp isSoft
  obtain ⟨index, numbered⟩ := exists_mem_numbered inProgram 0
  refine unsupported rule (List.mem_map.mpr ⟨(index, rule), ?_, rfl⟩) plain ground
  refine List.mem_filter.mpr ⟨List.mem_filter.mpr ⟨numbered, on⟩, ?_⟩
  simpa using (Rule.isViolated_iff ground model).mpr violated

/-- If one of the encodings succeeds, both do. Removing the marks maps the stable models with marks
one to one onto those stable models without marks that stay stable once the encoded rules that they
violate are dropped, and keeps their cost. These are all stable models without marks in which no
violated rule has a true atom in its head. -/
theorem guarded_encodings_compare {output : Program} (guarded : program.IsGroundGuarded)
    (avoids : program.Avoids "unsat") (unswitched : mode.switchPenalties = false)
    (encoded : (program.encode mode).result = .ok output) :
    ∃ compact marked,
      (program.encode { mode with markViolations := false }).result = .ok compact ∧
      (program.encode { mode with markViolations := true }).result = .ok marked ∧
      compact.IsGround ∧ marked.IsGround ∧
      Set.BijOn (unmarked "unsat") {extended | StableModel marked.groundRules extended}
        {model | StableModel compact.groundRules model ∧
          StableModel (program.satisfiedPart mode model).groundRules model} ∧
      (∀ extended, StableModel marked.groundRules extended → ∀ priority,
        cost marked.groundPenalties extended priority =
          cost compact.groundPenalties (unmarked "unsat" extended) priority) ∧
      ∀ model, StableModel compact.groundRules model →
        (∀ rule ∈ program.violatedRules mode model, ∀ plain,
          rule.unannotated.ground? = some plain → ∀ atom ∈ model, atom ∉ plain.head.options) →
        StableModel (program.satisfiedPart mode model).groundRules model := by
  have encodable := ((encode_ground_ok_iff guarded.hasGroundRules).mp encoded).1
  have marking : Marking "unsat" (program.keptRules mode) (program.markedSoftRules mode) :=
    avoids.marking
  have marked_iff (extended : Interpretation) :
      StableModel (groundRules (program.expansion { mode with markViolations := true } 0))
          extended ↔
        StableModel (markedRules (program.keptRules mode) (program.markedSoftRules mode))
          extended :=
    guarded.stableModel_marked_iff rfl
  have part_iff (model : Interpretation) :
      (StableModel (groundRules (program.expansion { mode with markViolations := false } 0)) model ∧
          StableModel (program.satisfiedPart mode model).groundRules model) ↔
        StableModel (satisfiedRules (program.keptRules mode) (program.markedSoftRules mode) model)
          model := by
    rw [satisfiedRules, map_markedSoftRules, ← stableModel_satisfiedPart_iff]
    constructor
    · exact And.right
    · intro stable
      exact ⟨@IsGroundGuarded.stable_choice { mode with markViolations := false } program model
        guarded rfl unswitched stable, stable⟩
  refine ⟨_, _, (encode_ground_ok_iff guarded.hasGroundRules).mpr ⟨encodable, rfl⟩,
    (encode_ground_ok_iff guarded.hasGroundRules).mpr ⟨encodable, rfl⟩,
    guarded.choice_isGround rfl unswitched, guarded.marked_isGround rfl, ?_, ?_, ?_⟩
  · simp only [marked_iff, part_iff]
    exact marking.bijOn_unmarked
  · intro extended stable priority
    have isExtension := marking.extends_unmarked ((marked_iff extended).mp stable)
    calc cost (groundPenalties (program.expansion { mode with markViolations := true } 0))
          extended priority
        = ((program.violatedRules mode (unmarked "unsat" extended)).map fun rule =>
            rule.price mode.power priority).sum :=
          @IsGroundGuarded.cost_marked { mode with markViolations := true } program _ guarded rfl
            extended isExtension priority
      _ = cost (groundPenalties (program.expansion { mode with markViolations := false } 0))
            (unmarked "unsat" extended) priority :=
          (@IsGroundGuarded.cost_choice { mode with markViolations := false } program guarded rfl
            unswitched _ priority).symm
  · intro model stable
    exact @IsGroundGuarded.stable_satisfiedPart { mode with markViolations := false } program model
      guarded rfl unswitched stable

/-- The rule `1 { a; b } 1 :- #true.` -/
def boundedPair : Program :=
  let element (name : String) : Conditional Literal :=
    { literal := .positive (.predicate (.constant name)) }
  [.rule {
    head := .aggregate {
      left := some ⟨.lessEqual, .number 1⟩
      elements := [element "a", element "b"]
      right := some ⟨.lessEqual, .number 1⟩ }
    body := [.literal (.boolean true)] }]

def exactlyOne : GroundAggregate :=
  ⟨some (.lessEqual, 1), [⟨false, "a", []⟩, ⟨false, "b", []⟩], some (.lessEqual, 1)⟩

/-- What the rule of the pair denotes. -/
def groundPair : GroundRule := ⟨.choice exactlyOne, [⟨.plain, .truth true⟩]⟩

theorem boundedPair_isGroundGuarded : boundedPair.IsGroundGuarded := by
  intro statement member
  rw [List.mem_singleton.mp member]
  refine ⟨_, rfl, groundPair, rfl, ?_, ?_⟩
  · rintro content ⟨⟩
    exact .inl rfl
  · intro literal inBody content
    rw [List.mem_singleton.mp inBody]
    nofun

theorem boundedPair_avoids : boundedPair.Avoids "unsat" := by
  intro rule member plain ground
  cases List.mem_singleton.mp member
  cases ground
  refine ⟨?_, ?_⟩
  · simp [GroundHead.Avoids, GroundAggregate.Avoids]
  · simp [GroundFormula.Avoids]

theorem guarded_encodings_compare_boundedPair :
    boundedPair.IsGroundGuarded ∧ boundedPair.Avoids "unsat" ∧
      ∃ compact marked,
        (boundedPair.encode { encodeHard := true }).result = .ok compact ∧
        (boundedPair.encode { encodeHard := true, markViolations := true }).result = .ok marked ∧
        compact.IsGround ∧ marked.IsGround ∧
        Set.BijOn (unmarked "unsat") {extended | StableModel marked.groundRules extended}
          {model | StableModel compact.groundRules model ∧
            StableModel (boundedPair.satisfiedPart { encodeHard := true } model).groundRules
              model} ∧
        (∀ extended, StableModel marked.groundRules extended → ∀ priority,
          cost marked.groundPenalties extended priority =
            cost compact.groundPenalties (unmarked "unsat" extended) priority) ∧
        ∀ model, StableModel compact.groundRules model →
          (∀ rule ∈ boundedPair.violatedRules { encodeHard := true } model, ∀ plain,
            rule.unannotated.ground? = some plain → ∀ atom ∈ model, atom ∉ plain.head.options) →
          StableModel (boundedPair.satisfiedPart { encodeHard := true } model).groundRules model :=
  ⟨boundedPair_isGroundGuarded, boundedPair_avoids,
    guarded_encodings_compare boundedPair_isGroundGuarded boundedPair_avoids rfl
      (rfl : (boundedPair.encode { encodeHard := true }).result = .ok _)⟩

/-- Both atoms of the pair. -/
def bothOfPair : Interpretation := {atom | atom ∈ exactlyOne.elements}

theorem groundPair_applies : groundPair.Applies bothOfPair := by
  simp [GroundRule.Applies, groundPair, GroundLiteral.Holds, GroundFormula.Holds]

theorem groundPair_violated : ¬ groundPair.Satisfied bothOfPair := by
  intro satisfied
  have size : exactlyOne.size bothOfPair = 2 :=
    GroundAggregate.size_eq_length (by simp [exactlyOne]) fun atom member => member
  have atMost : (exactlyOne.size bothOfPair : Int) ≤ 1 :=
    (satisfied groundPair_applies).2 (.lessEqual, 1) rfl
  omega

/-- Any of the atoms may be chosen once the bounds are gone. -/
theorem stable_released_pair :
    StableModel [⟨.choice ⟨none, exactlyOne.elements, none⟩, groundPair.body⟩] bothOfPair where
  satisfied := by
    intro rule member
    rw [List.mem_singleton.mp member]
    exact fun _ => GroundAggregate.holds_unbounded _ _
  least := by
    intro atom
    constructor
    · intro isTrue
      have admitted := ((groundPair.applies_iff bothOfPair).mp groundPair_applies).2
      have present : (⟨atom, []⟩ : Clause) ∈
          reduct [⟨.choice ⟨none, exactlyOne.elements, none⟩, groundPair.body⟩] bothOfPair :=
        ⟨_, List.mem_singleton.mpr rfl, admitted, ⟨isTrue, isTrue⟩, rfl⟩
      exact .by_clause present nofun
    · apply Derived.mem_of_closed
      rintro clause ⟨rule, member, _, supports, _⟩ _
      rw [List.mem_singleton.mp member] at supports
      exact supports.2
  coherent := by
    have positive : ∀ atom ∈ bothOfPair, atom.isOpposite = false := by
      simp [bothOfPair, exactlyOne]
    intro atom isTrue opposite
    have contradiction := positive _ opposite
    rw [GroundAtom.opposite, positive atom isTrue] at contradiction
    cases contradiction

/-- Without marks both atoms may be chosen at the price of the violated bound. With marks they may
not, since the violated rule is switched off and nothing else supports them. -/
theorem bounded_pair_disagrees :
    boundedPair.IsGroundGuarded ∧ boundedPair.Avoids "unsat" ∧
      ∃ compact marked,
        (boundedPair.encode { encodeHard := true }).result = .ok compact ∧
        (boundedPair.encode { encodeHard := true, markViolations := true }).result = .ok marked ∧
        ∃ model, StableModel compact.groundRules model ∧
          ∀ extended, StableModel marked.groundRules extended →
            unmarked "unsat" extended ≠ model := by
  refine ⟨boundedPair_isGroundGuarded, boundedPair_avoids, _, _, rfl, rfl, bothOfPair,
    stable_released_pair, ?_⟩
  intro extended stable same
  have marking : Marking "unsat" (boundedPair.keptRules { encodeHard := true })
      (boundedPair.markedSoftRules { encodeHard := true }) := boundedPair_avoids.marking
  have stable := (@IsGroundGuarded.stableModel_marked_iff
    { encodeHard := true, markViolations := true } _ _ boundedPair_isGroundGuarded rfl).mp stable
  have stable := (marking.satisfied_of_stable stable).1
  rw [same] at stable
  have unsupported : ∀ atom, atom ∉ bothOfPair := by
    intro atom isTrue
    cases (stable.least atom).mp isTrue with
    | by_clause present =>
        obtain ⟨rule, member, _⟩ := present
        rcases mem_satisfiedRules.mp member with isKept | ⟨marked, isSoft, _, satisfied⟩
        · cases isKept
        · cases List.mem_singleton.mp isSoft
          exact groundPair_violated satisfied
  exact unsupported ⟨false, "a", []⟩ (List.mem_cons_self ..)

end Program

end SoftRules
