import SoftRules.Proofs.Semantics.Ground
import Mathlib.Algebra.BigOperators.Group.Finset.Basic
import Mathlib.Algebra.Ring.Int.Defs
import Mathlib.Data.Set.Function

/-!
Stable models of ground rules and the cost of penalties.

The reduct of a rule by an interpretation evaluates everything but the plain atoms of the body, and
turns a choice into one clause for each of its elements that holds. An interpretation is stable if
it satisfies all rules, is the least set that the clauses of the reduct derive, and holds no atom
together with its classical negation.
-/

set_option autoImplicit false

namespace SoftRules

/-- The atoms that are true. -/
abbrev Interpretation := Set GroundAtom

def Relation.Relates : Relation → Int → Int → Prop
  | .equal, first, second => first = second
  | .unequal, first, second => first ≠ second
  | .less, first, second => first < second
  | .lessEqual, first, second => first ≤ second
  | .greater, first, second => second < first
  | .greaterEqual, first, second => second ≤ first

open Classical in
/-- The number of distinct elements that hold. -/
noncomputable def GroundAggregate.size (aggregate : GroundAggregate) (model : Interpretation) :
    Nat :=
  (aggregate.elements.toFinset.filter (· ∈ model)).card

/-- Both bounds hold, as far as they are given. -/
def GroundAggregate.Holds (aggregate : GroundAggregate) (model : Interpretation) : Prop :=
  (∀ bound ∈ aggregate.left, bound.1.Relates bound.2 (aggregate.size model)) ∧
    ∀ bound ∈ aggregate.right, bound.1.Relates (aggregate.size model) bound.2

def GroundFormula.Holds (model : Interpretation) : GroundFormula → Prop
  | .atom content => content ∈ model
  | .truth value => value = true
  | .count content => content.Holds model

def GroundLiteral.Holds (model : Interpretation) (literal : GroundLiteral) : Prop :=
  match literal.sign with
  | .plain => literal.formula.Holds model
  | .negated => ¬ literal.formula.Holds model
  | .doublyNegated => ¬ ¬ literal.formula.Holds model

def GroundHead.Holds (model : Interpretation) : GroundHead → Prop
  | .atom content => content ∈ model
  | .falsity => False
  | .choice content => content.Holds model

namespace GroundRule

/-- The body of the rule holds. -/
def Applies (rule : GroundRule) (model : Interpretation) : Prop :=
  ∀ literal ∈ rule.body, literal.Holds model

def Satisfied (rule : GroundRule) (model : Interpretation) : Prop :=
  rule.Applies model → rule.head.Holds model

end GroundRule

/-- A rule of a reduct. -/
structure Clause where
  head : GroundAtom
  body : List GroundAtom

/-- The least set that is closed under the clauses. -/
inductive Derived (clauses : Set Clause) : GroundAtom → Prop
  | by_clause {clause : Clause} (present : clause ∈ clauses)
      (premises : ∀ atom ∈ clause.body, Derived clauses atom) : Derived clauses clause.head

/-- The atom that a literal asks to be derived. All other literals are evaluated. -/
def GroundLiteral.premise? : GroundLiteral → Option GroundAtom
  | ⟨.plain, .atom content⟩ => some content
  | _ => none

/-- The atoms that the head may support in a model. -/
def GroundHead.Supports (model : Interpretation) : GroundHead → GroundAtom → Prop
  | .atom content, supported => supported = content
  | .falsity, _ => False
  | .choice content, supported => supported ∈ content.elements ∧ supported ∈ model

namespace GroundRule

/-- The atoms that have to be derived before the rule can be used. -/
def premises (rule : GroundRule) : List GroundAtom :=
  rule.body.filterMap GroundLiteral.premise?

/-- What the body demands beyond its premises. -/
def Admitted (rule : GroundRule) (model : Interpretation) : Prop :=
  ∀ literal ∈ rule.body, literal.premise? = none → literal.Holds model

end GroundRule

/-- The clauses that the rules leave once a model is given. -/
def reduct (rules : List GroundRule) (model : Interpretation) : Set Clause :=
  fun clause => ∃ rule ∈ rules, rule.Admitted model ∧ rule.head.Supports model clause.head ∧
    clause.body = rule.premises

structure StableModel (rules : List GroundRule) (model : Interpretation) : Prop where
  satisfied : ∀ rule ∈ rules, rule.Satisfied model
  least : ∀ atom, atom ∈ model ↔ Derived (reduct rules model) atom
  coherent : ∀ atom ∈ model, atom.opposite ∉ model

open Classical in
/-- The sum over the distinct charges of a priority that are due. -/
noncomputable def cost (penalties : List GroundPenalty) (model : Interpretation)
    (priority : Int) : Int :=
  let due := penalties.filter fun penalty =>
    penalty.charge.priority = priority ∧ ∀ literal ∈ penalty.body, literal.Holds model
  ∑ charge ∈ (due.map GroundPenalty.charge).toFinset, charge.weight

theorem GroundLiteral.holds_of_premise {literal : GroundLiteral} {atom : GroundAtom}
    {model : Interpretation} (premise : literal.premise? = some atom) :
    literal.Holds model ↔ atom ∈ model := by
  obtain ⟨sign, formula⟩ := literal
  cases sign with
  | plain =>
      cases formula with
      | atom content =>
          cases premise
          rfl
      | truth value => cases premise
      | count content => cases premise
  | negated => cases premise
  | doublyNegated => cases premise

/-- A body holds if its premises do and everything else in it does. -/
theorem GroundRule.applies_iff (rule : GroundRule) (model : Interpretation) :
    rule.Applies model ↔ (∀ atom ∈ rule.premises, atom ∈ model) ∧ rule.Admitted model := by
  constructor
  · intro applies
    refine ⟨?_, fun literal member _ => applies literal member⟩
    intro atom member
    obtain ⟨literal, inBody, premise⟩ := List.mem_filterMap.mp member
    exact (GroundLiteral.holds_of_premise premise).mp (applies literal inBody)
  · rintro ⟨premises, admitted⟩ literal inBody
    cases premise : literal.premise? with
    | none => exact admitted literal inBody premise
    | some atom =>
        apply (GroundLiteral.holds_of_premise premise).mpr
        exact premises atom (List.mem_filterMap.mpr ⟨literal, inBody, premise⟩)

/-- Everything derived lies in each set that is closed under the clauses. -/
theorem Derived.mem_of_closed {clauses : Set Clause} {model : Interpretation}
    (closed : ∀ clause ∈ clauses, (∀ atom ∈ clause.body, atom ∈ model) → clause.head ∈ model)
    {atom : GroundAtom} (derived : Derived clauses atom) : atom ∈ model := by
  induction derived with
  | by_clause present _ inductionHypothesis => exact closed _ present inductionHypothesis

theorem Derived.mono_on {first second : Set Clause} {model : Interpretation}
    (within : ∀ {atom}, Derived first atom → atom ∈ model)
    (included : ∀ clause ∈ first, (∀ atom ∈ clause.body, atom ∈ model) → clause ∈ second)
    {atom : GroundAtom} (derived : Derived first atom) : Derived second atom := by
  induction derived with
  | by_clause present premises inductionHypothesis =>
      apply Derived.by_clause _ inductionHypothesis
      exact included _ present fun atom member => within (premises atom member)

/-- Whether a model is the least one depends only on the clauses whose premises hold in it. -/
theorem derived_congr {first second : Set Clause} {model : Interpretation}
    (agree : ∀ clause, (∀ atom ∈ clause.body, atom ∈ model) →
      (clause ∈ first ↔ clause ∈ second))
    (least : ∀ atom, atom ∈ model ↔ Derived first atom) :
    ∀ atom, atom ∈ model ↔ Derived second atom := by
  intro atom
  constructor
  · intro member
    exact Derived.mono_on (fun derived => (least _).mpr derived)
      (fun clause present premises => (agree clause premises).mp present)
      ((least atom).mp member)
  · apply Derived.mem_of_closed
    intro clause present premises
    apply (least clause.head).mpr
    exact .by_clause ((agree clause premises).mpr present)
      fun atom member => (least atom).mp (premises atom member)

end SoftRules
