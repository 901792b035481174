import SoftRules.Proofs.Encoding.GroundRule
import SoftRules.Proofs.Semantics.MarkedRule

/-!
The ground rules and penalties that the encoding of a ground rule denotes. The head of the rule may
be an aggregate if it has a bound.
-/

set_option autoImplicit false

namespace SoftRules

/-- Reading a body with `#true` in the place of its annotations asks for the same as reading it
without them. -/
theorem BodyElement.mapM_neutral {body : List BodyElement} {plain : List GroundLiteral}
    (ground : (body.filter (·.annotation?.isNone)).mapM BodyElement.ground? = some plain)
    (head : GroundHead) :
    ∃ neutral, (body.map BodyElement.neutral).mapM BodyElement.ground? = some neutral ∧
      GroundRule.Alike ⟨head, neutral⟩ ⟨head, plain⟩ := by
  induction body generalizing plain with
  | nil =>
      simp only [List.filter_nil, List.mapM_nil] at ground
      cases ground
      exact ⟨[], rfl, .refl _⟩
  | cons element body inductionHypothesis =>
      cases weighed : element.annotation? with
      | some annotation =>
          rw [List.filter_cons_of_neg (by simp [weighed])] at ground
          obtain ⟨neutral, read, alike⟩ := inductionHypothesis ground
          have first : element.neutral.ground? = some ⟨.plain, .truth true⟩ := by
            simp [BodyElement.neutral, weighed, BodyElement.ground?, Literal.boolean,
              Literal.ground?]
          refine ⟨⟨.plain, .truth true⟩ :: neutral, ?_, rfl, ?_, ?_⟩
          · simp [first, read]
          · rw [← alike.premises]
            rfl
          · intro model
            rw [← alike.admitted model]
            simp [GroundRule.Admitted, GroundLiteral.premise?, GroundLiteral.Holds,
              GroundFormula.Holds]
      | none =>
          rw [List.filter_cons_of_pos (by simp [weighed])] at ground
          simp only [List.mapM_cons, Option.bind_eq_bind, Option.bind_eq_some_iff] at ground
          obtain ⟨literal, first, others, othersGround, equal⟩ := ground
          cases equal
          obtain ⟨neutral, read, alike⟩ := inductionHypothesis othersGround
          have kept := (BodyElement.neutral_of_ground (by simp [first] :
            element.ground?.isSome)).1
          refine ⟨literal :: neutral, ?_, rfl, ?_, ?_⟩
          · simp [kept, first, read]
          · have premises := alike.premises
            simp only [GroundRule.premises, List.filterMap_cons] at premises ⊢
            rw [premises]
          · intro model
            have admitted := alike.admitted model
            simp only [GroundRule.Admitted, List.forall_mem_cons] at admitted ⊢
            rw [admitted]

namespace Rule

/-- The terms that tell the penalty of a ground rule from those of other rules. -/
def key (index : Nat) : List Value := [.number index, .function "" []]

/-- What the violation of a rule costs. -/
def charge (power : Int) (index : Nat) (rule : Rule) : Charge :=
  match rule.ruleWeight power with
  | .hard => ⟨1, 1, key index⟩
  | .soft weight => ⟨weight.toInteger, 0, key index⟩

/-- The atom for the violation of a rule. -/
def mark (power : Int) (index : Nat) (rule : Rule) : GroundAtom where
  name := "unsat"
  arguments :=
    match rule.ruleWeight power with
    | .hard => [.number index, .text "alpha", .function "" []]
    | .soft weight => [.number index, .number weight.toInteger, .function "" []]

variable {mode : Mode} {rule : Rule} {plain : GroundRule}

theorem penalty_ground (power : Int) (index : Nat) (rule : Rule) (body : List BodyElement)
    (origin : Origin) {literals : List GroundLiteral}
    (ground : body.mapM BodyElement.ground? = some literals) :
    ∃ constraint, (Penalty.ofProfile index (rule.profiled power).profile).weakConstraint
        body origin = .weakConstraint constraint ∧
      constraint.ground? = some ⟨literals, rule.charge power index⟩ := by
  refine ⟨_, rfl, ?_⟩
  simp only [Penalty.ofProfile, Rule.profiled, Rule.charge, WeakConstraint.ground?, ground]
  cases rule.ruleWeight power with
  | hard => rfl
  | soft weight => rfl

theorem violation_ground (power : Int) (index : Nat) (rule : Rule) :
    ∃ term, (Penalty.ofProfile index (rule.profiled power).profile).violation = .predicate term ∧
      term.groundAtom? = some (rule.mark power index) := by
  refine ⟨_, rfl, ?_⟩
  simp only [Penalty.ofProfile, Rule.profiled, Rule.mark]
  cases rule.ruleWeight power with
  | hard => rfl
  | soft weight => rfl

end Rule

theorem Aggregate.ground_parts {aggregate : Aggregate Literal} {content : GroundAggregate}
    (ground : aggregate.ground? = some content) :
    Guard.groundOption? aggregate.left = some content.left ∧
      aggregate.elements.mapM Conditional.ground? = some content.elements ∧
      Guard.groundOption? aggregate.right = some content.right := by
  simp only [Aggregate.ground?, Option.bind_eq_bind, Option.bind_eq_some_iff] at ground
  obtain ⟨left, leftGround, elements, elementsGround, right, rightGround, same⟩ := ground
  cases same
  exact ⟨leftGround, elementsGround, rightGround⟩

theorem Guard.isSome_of_ground {guard : Option Guard} {bound : Option (Relation × Int)}
    (ground : Guard.groundOption? guard = some bound) (bounded : bound.isSome = true) :
    guard.isSome = true := by
  cases guard with
  | none =>
      cases ground
      cases bounded
  | some guard => rfl

theorem Aggregate.isGuarded_of_ground {aggregate : Aggregate Literal} {content : GroundAggregate}
    (ground : aggregate.ground? = some content)
    (bounded : content.left.isSome ∨ content.right.isSome) : aggregate.isGuarded = true := by
  obtain ⟨left, -, right⟩ := Aggregate.ground_parts ground
  rw [Aggregate.isGuarded, Bool.or_eq_true]
  rcases bounded with bounded | bounded
  · exact .inl (Guard.isSome_of_ground left bounded)
  · exact .inr (Guard.isSome_of_ground right bounded)

/-- The literal for the violation of a head denies it. -/
theorem Head.negation_ground {head : Head} {content : GroundHead}
    (ground : head.ground? = some content)
    (guarded : ∀ choice, content = .choice choice → choice.left.isSome ∨ choice.right.isSome) :
    ∃ notHead, head.negation? = some notHead ∧ notHead.ground? = some content.denial := by
  unfold Head.ground? at ground
  split at ground
  · obtain ⟨atom, read, rfl⟩ := Option.map_eq_some_iff.mp ground
    refine ⟨_, rfl, ?_⟩
    simp [Literal.negative, Literal.ground?, read, GroundHead.denial]
  · cases ground
    exact ⟨_, rfl, rfl⟩
  · obtain ⟨choice, read, rfl⟩ := Option.map_eq_some_iff.mp ground
    have isGuarded := Aggregate.isGuarded_of_ground read (guarded choice rfl)
    refine ⟨_, by rw [Head.negation?, if_pos isGuarded], ?_⟩
    simp [Literal.negative, Literal.ground?, read, GroundHead.denial]
  · cases ground

/-- The choice that leaves a head open is about the same atoms. -/
theorem Head.choice_ground {head : Head} {content : GroundHead}
    (ground : head.ground? = some content) :
    (content = .falsity ∧ head.choice? = none) ∨
      ∃ choice, head.choice? = some choice ∧
        choice.ground? = some ⟨none, content.options, none⟩ ∧ content ≠ .falsity := by
  unfold Head.ground? at ground
  split at ground
  · obtain ⟨atom, read, rfl⟩ := Option.map_eq_some_iff.mp ground
    refine .inr ⟨_, rfl, ?_, by simp⟩
    simp [Aggregate.ground?, Aggregate.choice, Guard.groundOption?, Conditional.ground?, read,
      GroundHead.options]
  · cases ground
    exact .inl ⟨rfl, rfl⟩
  · obtain ⟨choice, read, rfl⟩ := Option.map_eq_some_iff.mp ground
    refine .inr ⟨_, rfl, ?_, by simp⟩
    simp [Aggregate.ground?, Aggregate.choice, Guard.groundOption?,
      (Aggregate.ground_parts read).2.1, GroundHead.options]
  · cases ground

namespace Rule

variable {mode : Mode} {rule : Rule} {plain : GroundRule}

theorem expansion_of_not_encoded (off : rule.isEncoded mode = false) (index : Nat) :
    rule.expansion mode index = [.rule rule] := by
  simp [Rule.expansion, off]

theorem unannotated_of_not_encoded (off : rule.isEncoded mode = false) :
    rule.unannotated = rule := by
  have none : rule.annotations = [] := by
    simp only [Rule.isEncoded, Bool.and_eq_false_iff, Bool.not_eq_false', List.isEmpty_iff,
      Bool.or_eq_false_iff] at off
    rcases off with empty | ⟨none, _⟩
    · simp [Rule.annotations, empty]
    · exact none
  have plain : ∀ element ∈ rule.body, element.annotation?.isNone = true := by
    intro element member
    simpa using List.filterMap_eq_nil_iff.mp none element member
  cases rule with
  | mk head body origin =>
      simp only [Rule.unannotated, Rule.mk.injEq, true_and, and_true]
      exact List.filter_eq_self.mpr plain

/-- The choice and the penalty for a rule. A constraint needs no choice. -/
theorem compact_reading (ground : rule.unannotated.ground? = some plain)
    (guarded : plain.IsGuarded) (on : rule.isEncoded mode = true)
    (compact : mode.markViolations = false) (unswitched : mode.switchPenalties = false)
    (index : Nat) :
    ∃ body due, GroundRule.Alike ⟨plain.head, body⟩ plain ∧
      Program.IsGround (rule.expansion mode index) ∧
      Program.groundRules (rule.expansion mode index) =
        (⟨plain.head, body⟩ : GroundRule).released?.toList ∧
      Program.groundPenalties (rule.expansion mode index) =
        [⟨due, rule.charge mode.power index⟩] ∧
      ∀ model, (∀ literal ∈ due, literal.Holds model) ↔ ¬ plain.Satisfied model := by
  obtain ⟨headGround, bodyGround⟩ := ground_parts ground
  obtain ⟨body, read, alike⟩ := BodyElement.mapM_neutral bodyGround plain.head
  obtain ⟨notHead, negation, denied⟩ := Head.negation_ground headGround guarded.1
  have violated (model : Interpretation) : ¬ plain.Satisfied model ↔
      ∀ literal ∈ plain.head.denial :: body, literal.Holds model := by
    rw [← alike.satisfied model, GroundRule.not_satisfied_iff]
  rcases Head.choice_ground headGround with ⟨falsity, closed⟩ | ⟨choice, open', choiceGround, other⟩
  · obtain ⟨constraint, made, constraintGround⟩ := penalty_ground mode.power index rule
      (rule.body.map BodyElement.neutral) rule.origin read
    have expansion : rule.expansion mode index = [.weakConstraint constraint] := by
      rw [← made]
      simp [Rule.expansion, on, ProfiledRule.expansion, Rule.profiled, negation, compact,
        choiceEncoding, unswitched, closed]
    refine ⟨body, body, alike, ?_, ?_, ?_, ?_⟩
    · simp [expansion, Program.IsGround, constraintGround]
    · simp [expansion, Program.groundRules, falsity, GroundRule.released?]
    · simp [expansion, Program.groundPenalties, constraintGround]
    · intro model
      rw [violated, List.forall_mem_cons, GroundHead.holds_denial, falsity]
      simp [GroundHead.Holds]
  · have deniedBody : (BodyElement.literal notHead ::
        rule.body.map BodyElement.neutral).mapM BodyElement.ground? =
          some (plain.head.denial :: body) := by
      simp [BodyElement.ground?, denied, read]
    obtain ⟨constraint, made, constraintGround⟩ :=
      penalty_ground mode.power index rule _ rule.origin deniedBody
    have expansion : rule.expansion mode index =
        [.rule { head := .aggregate choice
                 body := rule.body.map BodyElement.neutral
                 origin := rule.origin },
          .weakConstraint constraint] := by
      rw [← made]
      simp [Rule.expansion, on, ProfiledRule.expansion, Rule.profiled, negation, compact,
        choiceEncoding, unswitched, open']
    have openGround : Rule.ground?
        { head := .aggregate choice
          body := rule.body.map BodyElement.neutral
          origin := rule.origin } =
        some ⟨.choice ⟨none, plain.head.options, none⟩, body⟩ := by
      simp [Rule.ground?, Head.ground?, choiceGround, read]
    have released : (⟨plain.head, body⟩ : GroundRule).released? =
        some ⟨.choice ⟨none, plain.head.options, none⟩, body⟩ := by
      unfold GroundRule.released?
      split
      · next falsity => exact absurd falsity other
      · rfl
    refine ⟨body, plain.head.denial :: body, alike, ?_, ?_, ?_, ?_⟩
    · simp [expansion, Program.IsGround, openGround, constraintGround]
    · simp [expansion, Program.groundRules, openGround, released]
    · simp [expansion, Program.groundPenalties, constraintGround]
    · intro model
      rw [violated]

/-- The two rules and the penalty for a rule whose violation is marked. -/
theorem marked_reading (ground : rule.unannotated.ground? = some plain)
    (guarded : plain.IsGuarded) (on : rule.isEncoded mode = true)
    (marked : mode.markViolations = true) (index : Nat) :
    ∃ body, GroundRule.Alike ⟨plain.head, body⟩ plain ∧
      Program.IsGround (rule.expansion mode index) ∧
      Program.groundRules (rule.expansion mode index) =
        [MarkedRule.violation ⟨rule.mark mode.power index, ⟨plain.head, body⟩⟩,
          MarkedRule.guarded ⟨rule.mark mode.power index, ⟨plain.head, body⟩⟩] ∧
      Program.groundPenalties (rule.expansion mode index) =
        [⟨[⟨.plain, .atom (rule.mark mode.power index)⟩], rule.charge mode.power index⟩] := by
  obtain ⟨headGround, bodyGround⟩ := ground_parts ground
  obtain ⟨body, read, alike⟩ := BodyElement.mapM_neutral bodyGround plain.head
  obtain ⟨notHead, negation, denied⟩ := Head.negation_ground headGround guarded.1
  obtain ⟨term, violation, termGround⟩ := violation_ground mode.power index rule
  have due : [BodyElement.literal (.positive (.predicate term) notHead.origin)].mapM
      BodyElement.ground? = some [⟨.plain, .atom (rule.mark mode.power index)⟩] := by
    simp [BodyElement.ground?, Literal.positive, Literal.ground?, termGround]
  obtain ⟨constraint, made, constraintGround⟩ :=
    penalty_ground mode.power index rule _ rule.origin due
  have expansion : rule.expansion mode index =
      [.rule { head := .literal (.positive (.predicate term) notHead.origin)
               body := .literal notHead :: rule.body.map BodyElement.neutral
               origin := rule.origin },
        .rule { head := rule.head
                body := .literal (.negative (.predicate term) notHead.origin) ::
                  rule.body.map BodyElement.neutral
                origin := rule.origin },
        .weakConstraint constraint] := by
    rw [← made]
    simp only [Rule.expansion, on, if_true, ProfiledRule.expansion]
    simp [Rule.profiled, negation, marked, markedEncoding, ← violation]
  have violationGround : Rule.ground?
      { head := .literal (.positive (.predicate term) notHead.origin)
        body := .literal notHead :: rule.body.map BodyElement.neutral
        origin := rule.origin } =
      some (MarkedRule.violation ⟨rule.mark mode.power index, ⟨plain.head, body⟩⟩) := by
    simp [Rule.ground?, Head.ground?, Literal.positive, termGround, BodyElement.ground?, denied,
      read, MarkedRule.violation]
  have guardedGround : Rule.ground?
      { head := rule.head
        body := .literal (.negative (.predicate term) notHead.origin) ::
          rule.body.map BodyElement.neutral
        origin := rule.origin } =
      some (MarkedRule.guarded ⟨rule.mark mode.power index, ⟨plain.head, body⟩⟩) := by
    simp [Rule.ground?, headGround, BodyElement.ground?, Literal.negative, Literal.ground?,
      termGround, read, MarkedRule.guarded]
  refine ⟨body, alike, ?_, ?_, ?_⟩
  · simp [expansion, Program.IsGround, violationGround, guardedGround, constraintGround]
  · simp [expansion, Program.groundRules, violationGround, guardedGround]
  · simp [expansion, Program.groundPenalties, constraintGround]

end Rule

end SoftRules
