import SoftRules.Proofs.Encoding.Calls

/-!
Indices are never shared. The call that gets an index is the only one that leaves it in its output,
in the key of the penalty and in the atoms that mark violations, and later calls get larger ones.

The atoms of a statement are collected at any depth, since a rule may bring atoms of its own that
look like marks; those are told apart from the ones that the encoding makes.
-/

set_option autoImplicit false

namespace SoftRules

mutual

/-- The atoms of a literal at any depth, as terms. -/
def Literal.predicates : Literal → List Term
  | ⟨_, atom, _⟩ => atom.predicates

def Literal.predicatesOf : List Literal → List Term
  | [] => []
  | literal :: literals => literal.predicates ++ Literal.predicatesOf literals

def Atom.predicates : Atom Literal → List Term
  | .predicate term _ => [term]
  | .boolean _ _ => []
  | .comparison _ _ _ _ => []
  | .aggregate content => content.predicates
  | .bodyAggregate content => content.predicates

def Aggregate.predicates : Aggregate Literal → List Term
  | ⟨_, elements, _, _⟩ => Conditional.predicatesOf elements

def BodyAggregate.predicates : BodyAggregate Literal → List Term
  | ⟨_, _, elements, _, _⟩ => Element.predicatesOf elements

def Conditional.predicates : Conditional Literal → List Term
  | ⟨literal, condition, _⟩ => literal.predicates ++ Literal.predicatesOf condition

def Conditional.predicatesOf : List (Conditional Literal) → List Term
  | [] => []
  | element :: elements => element.predicates ++ Conditional.predicatesOf elements

def Element.predicates : Element Literal → List Term
  | ⟨_, condition⟩ => Literal.predicatesOf condition

def Element.predicatesOf : List (Element Literal) → List Term
  | [] => []
  | element :: elements => element.predicates ++ Element.predicatesOf elements

end

def Head.predicates : Head → List Term
  | .literal content => content.predicates
  | .aggregate content => content.predicates
  | .theory content => Element.predicatesOf content.elements

def BodyElement.predicates : BodyElement → List Term
  | .literal content => content.predicates
  | .conditional content => content.predicates
  | .theory content => Element.predicatesOf content.elements

def Rule.predicates (rule : Rule) : List Term :=
  rule.head.predicates ++ rule.body.flatMap BodyElement.predicates

namespace Statement

def predicates : Statement → List Term
  | rule content => content.predicates
  | weakConstraint content => content.body.flatMap BodyElement.predicates
  | directive _ => []

/-- The terms for which a weak constraint is charged. -/
def key? : Statement → Option (List Term)
  | weakConstraint content => some content.terms
  | _ => none

end Statement

section Expansion

variable {head : Head} {notHead : Literal}

@[simp] theorem Head.predicates_literal (content : Literal) :
    (Head.literal content).predicates = content.predicates := rfl

@[simp] theorem Head.predicates_aggregate (content : Aggregate Literal) :
    (Head.aggregate content).predicates = content.predicates := rfl

@[simp] theorem BodyElement.predicates_literal (content : Literal) :
    (BodyElement.literal content).predicates = content.predicates := rfl

theorem Literal.predicates_atom (content : Literal) :
    content.predicates = content.atom.predicates := by
  cases content
  rw [Literal.predicates]

theorem Aggregate.predicates_eq (content : Aggregate Literal) :
    content.predicates = Conditional.predicatesOf content.elements := by
  cases content
  rw [Aggregate.predicates]

@[simp] theorem Literal.predicates_positive (atom : Atom Literal) (origin : Origin) :
    (Literal.positive atom origin).predicates = atom.predicates := Literal.predicates_atom _

@[simp] theorem Literal.predicates_negative (atom : Atom Literal) (origin : Origin) :
    (Literal.negative atom origin).predicates = atom.predicates := Literal.predicates_atom _

theorem Head.predicates_negation (negation : head.negation? = some notHead) :
    notHead.predicates = head.predicates := by
  unfold Head.negation? at negation
  split at negation
  · cases negation
    rw [Literal.predicates_negative, Head.predicates_literal, Literal.predicates_atom]
  · split at negation
    · cases negation
      rw [Literal.predicates_negative, Head.predicates_aggregate, Atom.predicates]
    · cases negation
  · cases negation

theorem Head.predicates_choice {choice : Aggregate Literal} (open' : head.choice? = some choice) :
    choice.predicates = head.predicates := by
  unfold Head.choice? at open'
  split at open'
  · split at open'
    · cases open'
    · cases open'
      simp [Aggregate.choice, Aggregate.predicates, Conditional.predicatesOf,
        Conditional.predicates, Literal.predicatesOf]
  · cases open'
    rw [Aggregate.choice, Head.predicates_aggregate, Aggregate.predicates, Aggregate.predicates_eq]
  · cases open'

namespace ProfiledRule

variable {mode : Mode} {index : Nat} {origin : Origin} {rule : ProfiledRule} {source : Rule}

/-- A rule is charged if its head can be violated and if it has a weight or needs none. -/
def isCharged (mode : Mode) (rule : ProfiledRule) : Bool :=
  rule.head.negation?.isSome && !(rule.profile.weight.isHard && !mode.encodeHard)

/-- The key of the penalty for the rule with an index. -/
def key (index : Nat) (rule : ProfiledRule) : List Term :=
  [.number index, .tuple (rule.profile.globals.map .var)]

/-- The atom that marks a violation of the rule with an index. -/
def mark (index : Nat) (rule : ProfiledRule) : Term :=
  .function "unsat" [.number index, (Penalty.ofProfile index rule.profile).mark,
    .tuple (rule.profile.globals.map .var)]

theorem key_eq : rule.key index =
    [(Penalty.ofProfile index rule.profile).index,
      (Penalty.ofProfile index rule.profile).globals] := by
  unfold key Penalty.ofProfile
  cases rule.profile.weight <;> rfl

theorem predicates_violation :
    (Penalty.ofProfile index rule.profile).violation.predicates = [rule.mark index] := by
  unfold mark Penalty.violation Penalty.ofProfile
  cases rule.profile.weight <;> rfl

/-- An expansion has one penalty, unless the head cannot be violated. -/
theorem keys_expansion :
    (rule.expansion mode index origin).filterMap Statement.key? =
      if rule.head.negation?.isSome then [rule.key index] else [] := by
  unfold expansion
  cases negation : rule.head.negation? with
  | none => rfl
  | some notHead =>
      rw [key_eq]
      cases marked : mode.markViolations with
      | true => rfl
      | false =>
          simp only [Bool.false_eq_true, if_false, choiceEncoding]
          cases rule.head.choice? <;> rfl

/-- The encoding adds marks and the switch to the atoms of the rule. -/
theorem predicates_expansion {statement : Statement} {term : Term}
    (member : statement ∈ rule.expansion mode index origin)
    (isTerm : term ∈ statement.predicates) :
    term ∈ rule.head.predicates ++ rule.body.flatMap BodyElement.predicates ∨
      term = .constant "ext_helper" ∨ term = rule.mark index := by
  have switched {switch : List BodyElement}
      (isSwitch : ∀ element ∈ switch, element = .literal (switchLiteral rule.head.origin))
      (isTerm : term ∈ switch.flatMap BodyElement.predicates) : term = .constant "ext_helper" := by
    obtain ⟨element, inSwitch, isTerm⟩ := List.mem_flatMap.mp isTerm
    rw [isSwitch element inSwitch] at isTerm
    exact List.mem_singleton.mp isTerm
  cases emits_of_mem member with
  | kept unguarded => exact .inl isTerm
  | violation negation marked =>
      rcases List.mem_append.mp isTerm with isMark | inBody
      · rw [Head.predicates_literal, Literal.predicates_positive, predicates_violation] at isMark
        exact .inr (.inr (List.mem_singleton.mp isMark))
      · rw [List.flatMap_cons, BodyElement.predicates_literal, Head.predicates_negation negation]
          at inBody
        exact .inl inBody
  | unviolated negation marked =>
      rcases List.mem_append.mp isTerm with inHead | inBody
      · exact .inl (List.mem_append_left _ inHead)
      · rw [List.flatMap_cons, BodyElement.predicates_literal, Literal.predicates_negative,
          predicates_violation] at inBody
        rcases List.mem_append.mp inBody with isMark | inBody
        · exact .inr (.inr (List.mem_singleton.mp isMark))
        · exact .inl (List.mem_append_right _ inBody)
  | markPenalty negation marked =>
      obtain ⟨element, inBody, isMark⟩ := List.mem_flatMap.mp isTerm
      rw [List.mem_singleton.mp inBody, BodyElement.predicates_literal,
        Literal.predicates_positive, predicates_violation] at isMark
      exact .inr (.inr (List.mem_singleton.mp isMark))
  | choice open' compact =>
      rcases List.mem_append.mp isTerm with inHead | inBody
      · rw [Head.predicates_aggregate, Head.predicates_choice open'] at inHead
        exact .inl (List.mem_append_left _ inHead)
      · exact .inl (List.mem_append_right _ inBody)
  | penalty negation compact isSwitch =>
      simp only [Penalty.weakConstraint, Statement.predicates, List.flatMap_append,
        List.flatMap_cons, BodyElement.predicates_literal, Head.predicates_negation negation]
        at isTerm
      rcases List.mem_append.mp isTerm with inSwitch | inRule
      · exact .inr (.inl (switched isSwitch inSwitch))
      · exact .inl inRule
  | closedPenalty negation closed compact isSwitch =>
      simp only [Penalty.weakConstraint, Statement.predicates, List.flatMap_append] at isTerm
      rcases List.mem_append.mp isTerm with inSwitch | inBody
      · exact .inr (.inl (switched isSwitch inSwitch))
      · exact .inl (List.mem_append_right _ inBody)

/-- Reading a rule without treatments brings no new atoms. -/
theorem predicates_untreated {power : Int} (profiled : (source.profile power).result = .ok rule)
    (untreated : rule.profile.treatment = none) :
    rule.head.predicates ++ rule.body.flatMap BodyElement.predicates ⊆ source.predicates := by
  intro term member
  rw [(Rule.head_of_untreated profiled untreated).1] at member
  rcases List.mem_append.mp member with inHead | inBody
  · exact List.mem_append_left _ inHead
  · apply List.mem_append_right
    obtain ⟨element, isElement, isTerm⟩ := List.mem_flatMap.mp inBody
    rcases Rule.body_of_untreated profiled untreated element isElement with kept | ⟨origin, rfl⟩
    · exact List.mem_flatMap.mpr ⟨element, kept, isTerm⟩
    · cases isTerm

end ProfiledRule

end Expansion

namespace Call

variable {call : Call} {source : Rule}

/-- What a call leaves behind that gets an index: one penalty with the index in its key, if the rule
is charged, and no mark of its own without the index. -/
structure Uses (call : Call) (source : Rule) (rule : ProfiledRule) : Prop where
  isRule : call.statement = .rule source
  profiled : (source.profile call.session.mode.power).result = .ok rule
  keys : call.emitted.filterMap Statement.key? =
    if rule.isCharged call.session.mode then [rule.key call.session.index] else []
  marks : ∀ statement ∈ call.emitted, ∀ arguments origin,
    .function "unsat" arguments origin ∈ statement.predicates →
      .function "unsat" arguments origin ∈ source.predicates ∨
        .function "unsat" arguments origin = rule.mark call.session.index

theorem uses_of_indexed (indexed : call.isIndexed = true) :
    ∃ source rule, call.Uses source rule := by
  obtain ⟨source, rule, isRule, profiled, untreated, -, emitted⟩ := indexed_cases indexed
  refine ⟨source, rule, isRule, profiled, ?_, ?_⟩
  · rw [emitted, ProfiledRule.isCharged]
    split
    · next kept => simp [kept, Statement.key?]
    · next encoded => simp [encoded, ProfiledRule.keys_expansion]
  · intro statement member arguments origin isMark
    rw [emitted] at member
    split at member
    · rw [List.mem_singleton.mp member] at isMark
      exact .inl isMark
    · rcases ProfiledRule.predicates_expansion member isMark with given | isSwitch | isOwn
      · exact .inl (ProfiledRule.predicates_untreated profiled untreated given)
      · simp [Term.constant] at isSwitch
      · exact .inr isOwn

/-- The index stands in the output of the call: in the key of a penalty, or in a mark that the rule
did not bring along. -/
def Embeds (call : Call) (index : Int) : Prop :=
  call.isIndexed = true ∧ ∃ statement ∈ call.emitted, ∃ others origin,
    statement.key? = some (.symbol (.number index) origin :: others) ∨
      ∃ place, .function "unsat" (.symbol (.number index) origin :: others) place ∈
          statement.predicates ∧
        .function "unsat" (.symbol (.number index) origin :: others) place ∉
          call.statement.predicates

theorem Embeds.index_eq {index : Int} (embeds : call.Embeds index) :
    index = call.session.index := by
  obtain ⟨indexed, statement, member, others, origin, found⟩ := embeds
  obtain ⟨source, rule, uses⟩ := uses_of_indexed indexed
  rcases found with isKey | ⟨place, isMark, own⟩
  · have known := List.mem_filterMap.mpr ⟨statement, member, isKey⟩
    rw [uses.keys] at known
    split at known
    · cases List.mem_singleton.mp known
      rfl
    · cases known
  · rw [uses.isRule] at own
    cases (uses.marks statement member _ _ isMark).resolve_left own
    rfl

end Call

namespace Session

/-- Later calls leave larger indices in their output. -/
theorem embeds_increase (session : Session) (statements : List Statement) :
    (session.calls statements).Pairwise fun first second =>
      ∀ index next, first.Embeds index → second.Embeds next → index < next := by
  induction statements generalizing session with
  | nil => exact List.Pairwise.nil
  | cons statement statements inductionHypothesis =>
      refine List.Pairwise.cons ?_ (inductionHypothesis _)
      intro later member index next embeds embedsNext
      have notBefore := (calls_session member).2
      rw [Call.after_eq, embeds.1] at notBefore
      rw [embeds.index_eq, embedsNext.index_eq]
      exact_mod_cast notBefore

/-- The index of a session counts the rules that are neither facts nor treated by an annotation.
Only the call for such a rule uses an index, all others leave the session as it is, and no index is
used by two calls. -/
theorem indices_never_shared (session : Session) (statements : List Statement) :
    (session.afterAll statements).index =
        session.index + (session.calls statements).countP Call.isIndexed ∧
      (∀ call ∈ session.calls statements,
        if call.isIndexed then
          call.after = call.session.next ∧ ∃ source rule, call.Uses source rule
        else call.after = call.session) ∧
      (session.calls statements).Pairwise fun first second =>
        ∀ index next, first.Embeds index → second.Embeds next → index < next := by
  refine ⟨afterAll_index, ?_, embeds_increase session statements⟩
  intro call member
  split
  · next indexed =>
      obtain ⟨_, _, _, _, _, next, _⟩ := Call.indexed_cases indexed
      exact ⟨next, Call.uses_of_indexed indexed⟩
  · next other => exact Call.after_of_not_indexed (Bool.eq_false_iff.mpr other)

end Session

end SoftRules
