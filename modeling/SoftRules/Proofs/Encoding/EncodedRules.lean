import SoftRules.Proofs.Encoding.GroundReading

/-!
The encoded rules of a program and what their violation costs.

Rules with a body get increasing indices, so no two penalties have the same key, and the cost of an
interpretation is a sum over the rules that it violates.
-/

set_option autoImplicit false

namespace SoftRules

namespace Rule

/-- The rule is ground and normal once its weight is left out. -/
def IsGroundNormal (rule : Rule) : Prop :=
  ∃ plain, rule.unannotated.ground? = some plain ∧ plain.IsNormal

/-- The rule is ground once its weight is left out, and aggregates occur in its head only, with a
bound. -/
def IsGroundGuarded (rule : Rule) : Prop :=
  ∃ plain, rule.unannotated.ground? = some plain ∧ plain.IsGuarded

/-- The body of the rule holds and its head does not. -/
def IsViolated (rule : Rule) (model : Interpretation) : Prop :=
  ∃ plain, rule.unannotated.ground? = some plain ∧ ¬ plain.Satisfied model

/-- The integer that stands for the weight of a soft rule. -/
def weight? (power : Int) (rule : Rule) : Option Int :=
  match rule.ruleWeight power with
  | .hard => none
  | .soft weight => some weight.toInteger

/-- What a violation adds to the cost at a priority. -/
def price (power priority : Int) (rule : Rule) : Int :=
  match rule.weight? power with
  | some weight => if priority = 0 then weight else 0
  | none => if priority = 1 then 1 else 0

theorem IsGroundNormal.isGround {rule : Rule} (normal : rule.IsGroundNormal) : rule.IsGround := by
  obtain ⟨plain, ground, _⟩ := normal
  exact Option.isSome_iff_exists.mpr ⟨plain, ground⟩

theorem IsGroundNormal.isGuarded {rule : Rule} (normal : rule.IsGroundNormal) :
    rule.IsGroundGuarded := by
  obtain ⟨plain, ground, isNormal⟩ := normal
  exact ⟨plain, ground, isNormal.isGuarded⟩

theorem isViolated_iff {rule : Rule} {plain : GroundRule}
    (ground : rule.unannotated.ground? = some plain) (model : Interpretation) :
    rule.IsViolated model ↔ ¬ plain.Satisfied model := by
  constructor
  · rintro ⟨other, otherGround, violated⟩
    cases ground.symm.trans otherGround
    exact violated
  · intro violated
    exact ⟨plain, ground, violated⟩

end Rule

namespace Program

/-- All statements are ground normal rules. -/
def IsGroundNormal (program : Program) : Prop :=
  ∀ statement ∈ program, ∃ rule, statement = .rule rule ∧ rule.IsGroundNormal

/-- All statements are ground rules whose heads may be aggregates with a bound. -/
def IsGroundGuarded (program : Program) : Prop :=
  ∀ statement ∈ program, ∃ rule, statement = .rule rule ∧ rule.IsGroundGuarded

/-- The rules that are encoded, each with its index. -/
def encodedRules (mode : Mode) (program : Program) : List (Nat × Rule) :=
  (program.numbered 0).filter fun (_, rule) => rule.isEncoded mode

open Classical in
/-- The encoded rules that an interpretation violates. -/
noncomputable def violatedRules (mode : Mode) (program : Program) (model : Interpretation) :
    List Rule :=
  ((program.encodedRules mode).filter fun (_, rule) => rule.IsViolated model).map Prod.snd

theorem IsGroundNormal.rule {program : Program} (normal : program.IsGroundNormal) {rule : Rule}
    (member : .rule rule ∈ program) : rule.IsGroundNormal := by
  obtain ⟨other, shape, isNormal⟩ := normal _ member
  cases shape
  exact isNormal

theorem IsGroundNormal.of_ground {program : Program} (normal : program.IsGroundNormal)
    {rule : Rule} (member : .rule rule ∈ program) {plain : GroundRule}
    (ground : rule.unannotated.ground? = some plain) : plain.IsNormal := by
  obtain ⟨other, otherGround, isNormal⟩ := normal.rule member
  cases ground.symm.trans otherGround
  exact isNormal

theorem IsGroundNormal.isGuarded {program : Program} (normal : program.IsGroundNormal) :
    program.IsGroundGuarded := by
  intro statement member
  obtain ⟨rule, shape, isNormal⟩ := normal statement member
  exact ⟨rule, shape, isNormal.isGuarded⟩

theorem IsGroundGuarded.rule {program : Program} (guarded : program.IsGroundGuarded) {rule : Rule}
    (member : .rule rule ∈ program) : rule.IsGroundGuarded := by
  obtain ⟨other, shape, isGuarded⟩ := guarded _ member
  cases shape
  exact isGuarded

theorem IsGroundGuarded.of_ground {program : Program} (guarded : program.IsGroundGuarded)
    {rule : Rule} (member : .rule rule ∈ program) {plain : GroundRule}
    (ground : rule.unannotated.ground? = some plain) : plain.IsGuarded := by
  obtain ⟨other, otherGround, isGuarded⟩ := guarded.rule member
  cases ground.symm.trans otherGround
  exact isGuarded

theorem IsGroundGuarded.hasGroundRules {program : Program} (guarded : program.IsGroundGuarded) :
    program.HasGroundRules := by
  intro statement member
  obtain ⟨rule, shape, plain, ground, _⟩ := guarded statement member
  exact ⟨rule, shape, Option.isSome_iff_exists.mpr ⟨plain, ground⟩⟩

theorem IsGroundNormal.hasGroundRules {program : Program} (normal : program.IsGroundNormal) :
    program.HasGroundRules := normal.isGuarded.hasGroundRules

theorem le_of_mem_numbered {program : Program} {index : Nat} {entry : Nat × Rule}
    (member : entry ∈ program.numbered index) : index ≤ entry.1 := by
  induction program generalizing index with
  | nil => cases member
  | cons statement program inductionHypothesis =>
      cases statement with
      | rule rule =>
          rcases List.mem_cons.mp member with same | member
          · rw [same]
          · have later := inductionHypothesis member
            split at later <;> omega
      | weakConstraint content => exact inductionHypothesis member
      | directive content => exact inductionHypothesis member

/-- The indices of encoded rules increase. -/
theorem pairwise_encoded (mode : Mode) (program : Program) (index : Nat) :
    ((program.numbered index).filter fun (_, rule) => rule.isEncoded mode).Pairwise
      fun first second => first.1 < second.1 := by
  induction program generalizing index with
  | nil => exact .nil
  | cons statement program inductionHypothesis =>
      cases statement with
      | rule rule =>
          rw [numbered]
          by_cases encoded : rule.isEncoded mode = true
          · rw [List.filter_cons_of_pos (by exact encoded)]
            refine List.pairwise_cons.mpr ⟨?_, inductionHypothesis _⟩
            intro entry member
            have later := le_of_mem_numbered (List.mem_filter.mp member).1
            have hasBody : rule.body.isEmpty = false := by
              simp only [Rule.isEncoded, Bool.and_eq_true, Bool.not_eq_true'] at encoded
              exact encoded.1
            rw [hasBody] at later
            exact later
          · rw [List.filter_cons_of_neg (by exact encoded)]
            exact inductionHypothesis _
      | weakConstraint content => exact inductionHypothesis index
      | directive content => exact inductionHypothesis index

theorem encodedRules_pairwise (mode : Mode) (program : Program) :
    (program.encodedRules mode).Pairwise fun first second => first.1 < second.1 :=
  pairwise_encoded mode program 0

theorem mem_of_mem_numbered {program : Program} {index : Nat} {entry : Nat × Rule}
    (member : entry ∈ program.numbered index) : .rule entry.2 ∈ program := by
  induction program generalizing index with
  | nil => cases member
  | cons statement program inductionHypothesis =>
      cases statement with
      | rule rule =>
          rcases List.mem_cons.mp member with same | member
          · rw [same]
            exact List.mem_cons_self ..
          · exact List.mem_cons_of_mem _ (inductionHypothesis member)
      | weakConstraint content => exact List.mem_cons_of_mem _ (inductionHypothesis member)
      | directive content => exact List.mem_cons_of_mem _ (inductionHypothesis member)

theorem exists_mem_numbered {program : Program} {rule : Rule} (member : .rule rule ∈ program)
    (index : Nat) : ∃ position, (position, rule) ∈ program.numbered index := by
  induction program generalizing index with
  | nil => cases member
  | cons statement program inductionHypothesis =>
      cases statement with
      | rule first =>
          rcases List.mem_cons.mp member with same | member
          · cases same
            exact ⟨index, List.mem_cons_self ..⟩
          · obtain ⟨position, later⟩ := inductionHypothesis member _
            exact ⟨position, List.mem_cons_of_mem _ later⟩
      | weakConstraint content =>
          rcases List.mem_cons.mp member with same | member
          · cases same
          · exact inductionHypothesis member index
      | directive content =>
          rcases List.mem_cons.mp member with same | member
          · cases same
          · exact inductionHypothesis member index

theorem mem_expansion {mode : Mode} {program : Program} {statement : Statement} :
    statement ∈ program.expansion mode 0 ↔
      ∃ index rule, (index, rule) ∈ program.numbered 0 ∧ statement ∈ rule.expansion mode index := by
  unfold expansion
  rw [List.mem_flatMap, Prod.exists]

theorem mem_groundRules_expansion {mode : Mode} {program : Program} {plain : GroundRule} :
    plain ∈ groundRules (program.expansion mode 0) ↔
      ∃ index rule, (index, rule) ∈ program.numbered 0 ∧
        plain ∈ groundRules (rule.expansion mode index) := by
  unfold groundRules expansion
  rw [List.filterMap_flatMap, List.mem_flatMap, Prod.exists]

/-- The readings of the rules that are not encoded. -/
def keptRules (mode : Mode) (program : Program) : List GroundRule :=
  ((program.numbered 0).filter fun (_, rule) => !rule.isEncoded mode).filterMap fun (_, rule) =>
    rule.unannotated.ground?

/-- The readings of the encoded rules. -/
def softRules (mode : Mode) (program : Program) : List GroundRule :=
  (program.encodedRules mode).filterMap fun (_, rule) => rule.unannotated.ground?

section Reading

variable {mode : Mode} {program : Program} {model : Interpretation} {plain : GroundRule}

theorem mem_keptRules : plain ∈ program.keptRules mode ↔
    ∃ rule, .rule rule ∈ program ∧ rule.isEncoded mode = false ∧
      rule.unannotated.ground? = some plain := by
  simp only [keptRules, List.mem_filterMap, List.mem_filter, Bool.not_eq_true']
  constructor
  · rintro ⟨⟨index, rule⟩, ⟨member, off⟩, ground⟩
    exact ⟨rule, mem_of_mem_numbered member, off, ground⟩
  · rintro ⟨rule, member, off, ground⟩
    obtain ⟨index, member⟩ := exists_mem_numbered member 0
    exact ⟨(index, rule), ⟨member, off⟩, ground⟩

theorem mem_softRules : plain ∈ program.softRules mode ↔
    ∃ rule, .rule rule ∈ program ∧ rule.isEncoded mode = true ∧
      rule.unannotated.ground? = some plain := by
  simp only [softRules, encodedRules, List.mem_filterMap, List.mem_filter]
  constructor
  · rintro ⟨⟨index, rule⟩, ⟨member, on⟩, ground⟩
    exact ⟨rule, mem_of_mem_numbered member, on, ground⟩
  · rintro ⟨rule, member, on, ground⟩
    obtain ⟨index, member⟩ := exists_mem_numbered member 0
    exact ⟨(index, rule), ⟨member, on⟩, ground⟩

theorem IsGroundGuarded.isGround_expansion (guarded : program.IsGroundGuarded)
    (encoded : ∀ index rule, (index, rule) ∈ program.encodedRules mode →
      IsGround (rule.expansion mode index)) :
    IsGround (program.expansion mode 0) := by
  intro statement member
  obtain ⟨index, rule, numbered, member⟩ := mem_expansion.mp member
  by_cases on : rule.isEncoded mode = true
  · exact encoded index rule (List.mem_filter.mpr ⟨numbered, on⟩) statement member
  · have off := Bool.eq_false_iff.mpr on
    obtain ⟨plain, ground, _⟩ := guarded.rule (mem_of_mem_numbered numbered)
    rw [Rule.expansion_of_not_encoded off] at member
    rw [Rule.unannotated_of_not_encoded off] at ground
    simp [List.mem_singleton.mp member, ground]

/-- The rules of the output are the rules that are kept and those that the encoded rules leave. -/
theorem stableModel_expansion_iff {left : List GroundRule}
    (included : ∀ index rule, (index, rule) ∈ program.encodedRules mode →
      ∀ plain ∈ groundRules (rule.expansion mode index), ∃ other ∈ left, plain.Alike other)
    (includes : ∀ other ∈ left, ∃ index rule, (index, rule) ∈ program.encodedRules mode ∧
      ∃ plain ∈ groundRules (rule.expansion mode index), other.Alike plain) :
    StableModel (groundRules (program.expansion mode 0)) model ↔
      StableModel (program.keptRules mode ++ left) model := by
  apply stableModel_congr
  · intro plain member
    obtain ⟨index, rule, numbered, member⟩ := mem_groundRules_expansion.mp member
    by_cases on : rule.isEncoded mode = true
    · obtain ⟨other, isLeft, alike⟩ :=
        included index rule (List.mem_filter.mpr ⟨numbered, on⟩) plain member
      exact ⟨other, List.mem_append_right _ isLeft, alike⟩
    · have off := Bool.eq_false_iff.mpr on
      rw [Rule.expansion_of_not_encoded off] at member
      have read : rule.ground? = some plain := by simpa [groundRules] using member
      rw [← Rule.unannotated_of_not_encoded off] at read
      refine ⟨plain, List.mem_append_left _ ?_, .refl plain⟩
      exact mem_keptRules.mpr ⟨rule, mem_of_mem_numbered numbered, off, read⟩
  · intro plain member
    rcases List.mem_append.mp member with isKept | isLeft
    · obtain ⟨rule, inProgram, off, ground⟩ := mem_keptRules.mp isKept
      obtain ⟨index, numbered⟩ := exists_mem_numbered inProgram 0
      refine ⟨plain, mem_groundRules_expansion.mpr ⟨index, rule, numbered, ?_⟩, .refl plain⟩
      rw [Rule.unannotated_of_not_encoded off] at ground
      rw [Rule.expansion_of_not_encoded off]
      simp [groundRules, ground]
    · obtain ⟨index, rule, member, other, inExpansion, alike⟩ := includes plain isLeft
      have numbered := (List.mem_filter.mp member).1
      exact ⟨other, mem_groundRules_expansion.mpr ⟨index, rule, numbered, inExpansion⟩, alike⟩

end Reading

end Program

section Cost

variable {mode : Mode} {entries : List (Nat × Rule)} {penalties : List GroundPenalty}
  {model violating : Interpretation}

/-- The penalty charges for the rule, and is due in one interpretation if the other violates the
rule. -/
structure Rule.ChargedBy (power : Int) (model violating : Interpretation) (entry : Nat × Rule)
    (penalty : GroundPenalty) : Prop where
  charge : penalty.charge = entry.2.charge power entry.1
  due : (∀ literal ∈ penalty.body, literal.Holds model) ↔ entry.2.IsViolated violating

/-- If each encoded rule leaves one penalty that charges for it, the penalties follow the encoded
rules. -/
theorem charged_flatMap
    (encoded : ∀ entry ∈ entries, entry.2.isEncoded mode = true →
      ∃ penalty, Program.groundPenalties (entry.2.expansion mode entry.1) = [penalty] ∧
        Rule.ChargedBy mode.power model violating entry penalty) :
    List.Forall₂ (Rule.ChargedBy mode.power model violating)
      (entries.filter fun entry => entry.2.isEncoded mode)
      (Program.groundPenalties (entries.flatMap fun entry => entry.2.expansion mode entry.1)) := by
  induction entries with
  | nil => exact .nil
  | cons entry entries inductionHypothesis =>
      have others := inductionHypothesis fun other member =>
        encoded other (List.mem_cons_of_mem _ member)
      rw [List.flatMap_cons, Program.groundPenalties_append]
      by_cases isEncoded : entry.2.isEncoded mode = true
      · obtain ⟨penalty, single, charged⟩ := encoded entry (List.mem_cons_self ..) isEncoded
        rw [List.filter_cons_of_pos (by exact isEncoded), single]
        exact .cons charged others
      · rw [List.filter_cons_of_neg (by exact isEncoded),
          Rule.expansion_of_not_encoded (Bool.eq_false_iff.mpr isEncoded)]
        exact others

theorem Rule.charge_injective {power : Int} {first second : Nat × Rule}
    (same : first.2.charge power first.1 = second.2.charge power second.1) :
    first.1 = second.1 := by
  have terms (entry : Nat × Rule) : (entry.2.charge power entry.1).terms = Rule.key entry.1 := by
    unfold Rule.charge
    split <;> rfl
  have keys : Rule.key first.1 = Rule.key second.1 := by rw [← terms, ← terms, same]
  simp only [Rule.key, List.cons.injEq, Value.number.injEq, and_true] at keys
  exact Int.ofNat.inj keys

theorem Rule.price_eq (power priority : Int) (index : Nat) (rule : Rule) :
    rule.price power priority =
      if (rule.charge power index).priority = priority then (rule.charge power index).weight
      else 0 := by
  unfold Rule.price Rule.weight? Rule.charge
  cases rule.ruleWeight power with
  | hard => simp only [eq_comm]
  | soft weight => simp only [eq_comm]

theorem nodup_charges (increasing : entries.Pairwise fun first second => first.1 < second.1)
    (charged : List.Forall₂ (Rule.ChargedBy mode.power model violating) entries penalties) :
    (penalties.map GroundPenalty.charge).Nodup := by
  have same : penalties.map GroundPenalty.charge =
      entries.map fun entry => entry.2.charge mode.power entry.1 := by
    induction charged with
    | nil => rfl
    | cons first _ inductionHypothesis =>
        rw [List.map_cons, List.map_cons, first.charge,
          inductionHypothesis (List.pairwise_cons.mp increasing).2]
  rw [same]
  apply List.pairwise_map.mpr
  apply increasing.imp
  intro first second less equal
  exact absurd (Rule.charge_injective equal) (Nat.ne_of_lt less)

open Classical in
/-- The cost is the sum of the prices of the violated rules. -/
theorem cost_eq_sum (increasing : entries.Pairwise fun first second => first.1 < second.1)
    (charged : List.Forall₂ (Rule.ChargedBy mode.power model violating) entries penalties)
    (priority : Int) :
    cost penalties model priority =
      ((entries.filter fun entry => entry.2.IsViolated violating).map fun entry =>
        entry.2.price mode.power priority).sum := by
  have distinct := nodup_charges increasing charged
  unfold cost
  rw [List.sum_toFinset _ (distinct.sublist (List.filter_sublist.map _)), List.map_map]
  clear distinct increasing
  induction charged with
  | nil => rfl
  | @cons entry penalty entries penalties first _ inductionHypothesis =>
      have price := entry.2.price_eq mode.power priority entry.1
      rw [← first.charge] at price
      simp only [List.filter_cons, decide_eq_true_eq, first.due]
      by_cases violated : entry.2.IsViolated violating
      · by_cases listed : penalty.charge.priority = priority
        · simp [violated, listed, price, ← inductionHypothesis]
        · simp [violated, listed, price, ← inductionHypothesis]
      · simp [violated, ← inductionHypothesis]

end Cost

/-- The rules `a :- not b, &weight(2).`, `:- b, not a.` and `c.`. -/
def Program.rivals : Program :=
  let literal (sign : Sign) (name : String) : Literal :=
    { sign, atom := .predicate (.constant name) }
  [.rule {
      head := .literal (literal .plain "a")
      body := [.literal (literal .negated "b"),
        .theory { name := "weight", arguments := [.number 2] }] },
    .rule (.constraint [.literal (literal .plain "b"), .literal (literal .negated "a")]),
    .rule { head := .literal (literal .plain "c") }]

theorem Program.rivals_isGroundNormal : rivals.IsGroundNormal := by
  intro statement member
  simp only [rivals, List.mem_cons, List.not_mem_nil, or_false] at member
  rcases member with rfl | rfl | rfl
  · exact ⟨_, rfl, _, rfl, by simp [GroundRule.IsNormal]⟩
  · exact ⟨_, rfl, _, rfl, by simp [GroundRule.IsNormal]⟩
  · exact ⟨_, rfl, _, rfl, by simp [GroundRule.IsNormal]⟩

theorem Program.rivals_encodable :
    ∃ output, (rivals.encode { encodeHard := true }).result = .ok output :=
  Except.exists_eq_ok (by decide +kernel)

end SoftRules
