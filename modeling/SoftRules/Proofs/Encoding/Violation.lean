import SoftRules.Proofs.Encoding.RuleReading

/-!
When a rule is charged for.

The penalty of a rule is due under a condition: the body of its weak constraint or, if violations
are marked, the body of the rule for the mark. Read under any truth assignment, that condition says
that the body of the rule holds and the atom of its head does not. The sign of the head does not
count in it. So it is the violation of the rule unless the head is negated once; then the rule is
charged for where it is satisfied (`Session.charged_iff_violated`).
-/

set_option autoImplicit false

namespace SoftRules

/-- A truth value for each atom. The constants mean what they say. Conditional literals have truth
values of their own, so that nothing is assumed about what their variables range over. -/
structure Assignment where
  atom : Atom Literal → Prop
  conditional : Conditional Literal → Prop
  atom_boolean (value : Bool) (origin : Origin) : atom (.boolean value origin) ↔ value = true

namespace Assignment

variable (assignment : Assignment)

def Holds (literal : Literal) : Prop :=
  match literal.sign with
  | .plain => assignment.atom literal.atom
  | .negated => ¬ assignment.atom literal.atom
  | .doublyNegated => ¬ ¬ assignment.atom literal.atom

/-- An annotation says nothing about truth. -/
def HoldsElement : BodyElement → Prop
  | .literal content => assignment.Holds content
  | .conditional content => assignment.conditional content
  | .theory _ => True

def HoldsBody (body : List BodyElement) : Prop := ∀ element ∈ body, assignment.HoldsElement element

/-- The body holds and the head does not. -/
def Violates (head : Literal) (body : List BodyElement) : Prop :=
  assignment.HoldsBody body ∧ ¬ assignment.Holds head

@[simp] theorem holdsBody_cons (element : BodyElement) (body : List BodyElement) :
    assignment.HoldsBody (element :: body) ↔
      assignment.HoldsElement element ∧ assignment.HoldsBody body :=
  List.forall_mem_cons

@[simp] theorem holds_negative (atom : Atom Literal) (origin : Origin) :
    assignment.Holds (.negative atom origin) ↔ ¬ assignment.atom atom := Iff.rfl

theorem not_atom_of_isFalse {atom : Atom Literal} (isFalse : atom.isFalse = true) :
    ¬ assignment.atom atom := by
  cases atom with
  | boolean value origin =>
      rw [assignment.atom_boolean]
      simpa [Atom.isFalse] using isFalse
  | _ => cases isFalse

/-- Only a single negation turns the truth of an atom around. -/
theorem holds_iff (literal : Literal) :
    assignment.Holds literal ↔
      (assignment.atom literal.atom ↔ literal.sign ≠ .negated) := by
  unfold Holds
  cases literal.sign with
  | plain => simp
  | negated => simp
  | doublyNegated => simp [not_not]

/-- Weights are true, and so is the literal in their place. -/
theorem holdsElement_settled {element : BodyElement} (untreated : element.treatment? = none) :
    assignment.HoldsElement element.settled ↔ assignment.HoldsElement element := by
  cases element with
  | literal content => rfl
  | conditional content => rfl
  | theory remark =>
      have untreated : remark.treatment? = none := untreated
      cases found : remark.formula? with
      | none => simp [BodyElement.settled, TheoryAtom.substitute?, found, untreated]
      | some formula =>
          have settled : BodyElement.settled (.theory remark) =
              .literal { Literal.boolean true with origin := remark.origin } := by
            simp [BodyElement.settled, TheoryAtom.substitute?, found]
          rw [settled]
          exact iff_of_true ((assignment.atom_boolean true none).mpr rfl) trivial

theorem holdsBody_settled {body : List BodyElement}
    (untreated : body.filterMap BodyElement.treatment? = []) :
    assignment.HoldsBody (body.map BodyElement.settled) ↔ assignment.HoldsBody body := by
  have each := List.filterMap_eq_nil_iff.mp untreated
  simp only [HoldsBody, List.forall_mem_map]
  exact forall₂_congr fun element member => assignment.holdsElement_settled (each element member)

/-- All atoms hold but `#false`. -/
def affirmative : Assignment where
  atom
    | .boolean value _ => value = true
    | _ => True
  conditional _ := True
  atom_boolean _ _ := Iff.rfl

end Assignment

/-- The body under which statements charge for a rule: that of the weak constraint behind the rules
or, if violations are marked, that of the rule for the mark on which the weak constraint depends. -/
def IsCharged (mode : Mode) (statements : List Statement) (body : List BodyElement) : Prop :=
  if mode.markViolations then
    ∃ arguments origin ruleOrigin rule constraint,
      let mark := Literal.positive (.predicate (.function "unsat" arguments)) origin
      statements = [.rule { head := .literal mark, body, origin := ruleOrigin }, .rule rule,
        .weakConstraint constraint] ∧ constraint.body = [.literal mark]
  else
    ∃ rules constraint, statements = rules ++ [.weakConstraint constraint] ∧
      (∀ statement ∈ rules, statement.isRule = true) ∧ constraint.body = body

/-- The encoder gets the rule: its annotations ask for no treatment, and it has a weight unless hard
rules are encoded as well. -/
def Rule.ReachesEncoder (mode : Mode) (source : Rule) : Prop :=
  ¬ source.IsFact ∧ ∃ rule, (source.profile mode.power).result = .ok rule ∧
    rule.profile.treatment = none ∧
      (rule.profile.weight.isHard = false ∨ mode.encodeHard = true)

namespace ProfiledRule

variable {mode : Mode} {index : Nat} {origin : Origin} {rule : ProfiledRule} {content : Literal}

/-- A rule with a literal head is charged for if its body holds and the atom of its head does
not. -/
theorem exists_isCharged (isHead : rule.head = .literal content)
    (unswitched : mode.switchPenalties = false) :
    ∃ body, IsCharged mode (rule.expansion mode index origin) body ∧
      ∀ assignment : Assignment, assignment.HoldsBody body ↔
        assignment.HoldsBody rule.body ∧ ¬ assignment.atom content.atom := by
  have negation : rule.head.negation? = some (.negative content.atom content.origin) := by
    rw [isHead]
    rfl
  have charged (assignment : Assignment) :
      assignment.HoldsBody (.literal (.negative content.atom content.origin) :: rule.body) ↔
        assignment.HoldsBody rule.body ∧ ¬ assignment.atom content.atom := by
    rw [Assignment.holdsBody_cons, and_comm]
    rfl
  unfold ProfiledRule.expansion IsCharged
  simp only [negation]
  cases marked : mode.markViolations with
  | true => exact ⟨_, ⟨_, _, _, _, _, rfl, rfl⟩, charged⟩
  | false =>
      simp only [Bool.false_eq_true, if_false, choiceEncoding, unswitched, Bool.false_and,
        List.nil_append]
      cases isFalse : content.atom.isFalse with
      | true =>
          -- There is no choice, and the body is charged for as it is.
          have none : rule.head.choice? = none := by simp [isHead, Head.choice?, isFalse]
          refine ⟨rule.body, ⟨[], _, by rw [none]; rfl, by simp, rfl⟩, fun assignment => ?_⟩
          exact (and_iff_left (assignment.not_atom_of_isFalse isFalse)).symm
      | false =>
          have choice : rule.head.choice? =
              some (.choice [{ literal := content }] content.origin) := by
            simp [isHead, Head.choice?, isFalse]
          exact ⟨_, ⟨[_], _, by rw [choice]; rfl, by simp [Statement.isRule], rfl⟩, charged⟩

end ProfiledRule

namespace Session

variable {session : Session} {source : Rule} {content : Literal}

/-- A rule with a literal head that reaches the encoder is encoded, and what it is charged for is
its violation, exactly if the head is not negated once or the body does not hold. -/
theorem charged_iff_violated (isHead : source.head = .literal content)
    (reaches : source.ReachesEncoder session.mode)
    (unswitched : session.mode.switchPenalties = false) :
    ∃ expansion body, (session.encodeRule source).result = .ok (expansion, session.next) ∧
      IsCharged session.mode expansion.statements body ∧
      ∀ assignment : Assignment,
        ((assignment.HoldsBody body ↔ assignment.Violates content source.body) ↔
          content.sign ≠ .negated ∨ ¬ assignment.HoldsBody source.body) := by
  obtain ⟨fresh, rule, profiled, untreated, on⟩ := reaches
  obtain ⟨sameHead, plain⟩ := Rule.head_of_untreated profiled untreated
  have step := RuleStep.encoded fresh profiled untreated on (sameHead ▸ plain)
  obtain ⟨expansion, isExpansion⟩ := Expansion.exists_statements step.statements_ne_nil
  rw [← isExpansion] at step
  obtain ⟨body, charged, due⟩ := ProfiledRule.exists_isCharged (sameHead.trans isHead) unswitched
  refine ⟨expansion, body, encodeRule_iff_step.mpr step, isExpansion ▸ charged, ?_⟩
  intro assignment
  have noTreatments := (List.append_eq_nil_iff.mp (Rule.treatments_eq_nil profiled untreated)).2
  rw [due, (Rule.profile_settled profiled).2, assignment.holdsBody_settled noTreatments,
    Assignment.Violates, assignment.holds_iff]
  by_cases holds : assignment.HoldsBody source.body
  · by_cases negated : content.sign = .negated
    · simp [holds, negated]
    · simp [holds, negated]
  · simp [holds]

/-- The rule `not not a :- b(X) : c(X); &weight(2).` -/
def doublyNegated : Rule where
  head := .literal { sign := .doublyNegated, atom := .predicate (.constant "a") }
  body := [
    .conditional {
      literal := .positive (.predicate (.function "b" [.var ⟨"X", none⟩]))
      condition := [.positive (.predicate (.function "c" [.var ⟨"X", none⟩]))] },
    .theory { name := "weight", arguments := [.number 2] }]

/-- A session that marks violations. -/
def marking : Session := { mode := { power := 0, markViolations := true } }

theorem doublyNegated_reachesEncoder : doublyNegated.ReachesEncoder marking.mode := by
  have isOk : (doublyNegated.profile marking.mode.power).result.isOk = true := by decide +kernel
  obtain ⟨rule, profiled⟩ := Except.exists_eq_ok isOk
  refine ⟨by simp [Rule.IsFact, doublyNegated], rule, profiled, ?_, .inl ?_⟩
  · rw [Rule.profile_treatment profiled]
    decide
  · rw [(Rule.profile_weight profiled).2]
    decide

theorem charged_iff_violated_doublyNegated :
    ∃ expansion body,
      (marking.encodeRule doublyNegated).result = .ok (expansion, marking.next) ∧
      IsCharged marking.mode expansion.statements body ∧
      ∀ assignment : Assignment, assignment.HoldsBody body ↔
        assignment.Violates { sign := .doublyNegated, atom := .predicate (.constant "a") }
          doublyNegated.body := by
  obtain ⟨expansion, body, encoded, charged, agrees⟩ :=
    charged_iff_violated rfl doublyNegated_reachesEncoder rfl
  refine ⟨expansion, body, encoded, charged, fun assignment => (agrees assignment).mpr (.inl ?_)⟩
  decide

/-- The rule `not a :- b.` -/
def negatedOnce : Rule where
  head := .literal { sign := .negated, atom := .predicate (.constant "a") }
  body := [.literal (.positive (.predicate (.constant "b")))]

/-- If `a` and `b` hold, the rule `not a :- b.` is violated. Yet it is charged for if `a` does not
hold. -/
theorem negatedOnce_not_charged :
    ∃ expansion body,
      (encodeRule { mode := { encodeHard := true } } negatedOnce).result =
        .ok (expansion, { mode := { encodeHard := true }, index := 1 }) ∧
      IsCharged { encodeHard := true } expansion.statements body ∧
      Assignment.affirmative.Violates { sign := .negated, atom := .predicate (.constant "a") }
        negatedOnce.body ∧
      ¬ Assignment.affirmative.HoldsBody body := by
  refine ⟨_, _, rfl, ⟨[_], _, rfl, by simp [Statement.isRule], rfl⟩, ?_, ?_⟩
  · refine ⟨?_, not_not.mpr trivial⟩
    rw [negatedOnce, Assignment.HoldsBody, List.forall_mem_singleton]
    trivial
  · intro holds
    exact ((Assignment.holdsBody_cons _ _ _).mp holds).1 trivial

end Session

end SoftRules
