import SoftRules.Proofs.Encoding.ErasedRule
import SoftRules.Proofs.Encoding.Fallbacks
import Mathlib.Data.List.ModifyLast

/-!
The order of the elements of a body.

A rule with a permuted body is encoded in the same way, up to the order of the elements in the
bodies and up to the order of the variables in the tuples that are generated
(`Session.encodeRule_of_perm`). The annotations are read from left to right, with the profile as a
state, so this rests on what the profile is in terms of the whole body: a rule is readable whatever
the order of its body, and each part of its profile is made of a list that keeps its members.
-/

set_option autoImplicit false

namespace SoftRules

/-! Rearranged lists. -/

/-- A permutation of the positions of all lists of one length. -/
structure Rearrangement where
  size : Nat
  order : List Nat
  isPerm : order.Perm (List.range size)

namespace Rearrangement

variable {α β : Type}

/-- The list with its members in another order. Lists of another length stay as they are. -/
def list (change : Rearrangement) (members : List α) : List α :=
  if members.length = change.size then change.order.filterMap (members[·]?) else members

theorem map_list (change : Rearrangement) (view : α → β) (members : List α) :
    (change.list members).map view = change.list (members.map view) := by
  unfold list
  rw [List.length_map]
  split
  · simp [List.map_filterMap]
  · rfl

/-- Distinct members are brought into any order by some rearrangement. -/
theorem exists_list_eq [DecidableEq α] {first second : List α} (distinct : first.Nodup)
    (permuted : first.Perm second) : ∃ change : Rearrangement, change.list first = second := by
  have positions : first.map first.idxOf = List.range first.length := by
    refine List.ext_getElem (by simp) fun position _ inside => ?_
    simpa using distinct.idxOf_getElem position (by simpa using inside)
  refine ⟨⟨first.length, second.map first.idxOf, ?_⟩, ?_⟩
  · rw [← positions]
    exact (permuted.map _).symm
  · rw [list, if_pos rfl, List.filterMap_map]
    calc second.filterMap ((first[·]?) ∘ first.idxOf)
      _ = second.filterMap some := List.filterMap_congr fun member isMember =>
          List.getElem?_idxOf (permuted.mem_iff.mpr isMember)
      _ = second := List.filterMap_some

/-- The tuple with its terms in another order. -/
def tuple (change : Rearrangement) : Term → Term
  | .function name arguments origin => .function name (change.list arguments) origin
  | term => term

/-- The literal with the terms of the tuple in its last argument in another order. -/
def mark (change : Rearrangement) : Literal → Literal
  | ⟨sign, .predicate (.function name arguments place) origin, whole⟩ =>
      ⟨sign, .predicate (.function name (arguments.modifyLast change.tuple) place) origin, whole⟩
  | literal => literal

/-- The statement with the terms of the tuple that ends a key in another order. -/
def key (change : Rearrangement) : Statement → Statement
  | .weakConstraint constraint =>
      .weakConstraint { constraint with terms := constraint.terms.modifyLast change.tuple }
  | statement => statement

/-- The statements that take the place of a rule, with the generated tuples in another order. There
are such tuples in keys. Two rules and a penalty take the place of a rule whose violations are
marked, and then there are also such tuples in the marks: in the head of the first rule, in front of
the body of the second one and in the body of the penalty. -/
def generated (change : Rearrangement) : List Statement → List Statement
  | [.rule ⟨.literal marked, violated, first⟩, .rule ⟨head, .literal unmarked :: body, second⟩,
      .weakConstraint ⟨[.literal charged], weight, priority, terms, last⟩] =>
      let penalty := ⟨[.literal (change.mark charged)], weight, priority, terms, last⟩
      [.rule ⟨.literal (change.mark marked), violated, first⟩,
        .rule ⟨head, .literal (change.mark unmarked) :: body, second⟩,
        change.key (.weakConstraint penalty)]
  | statements => statements.map change.key

theorem length_generated (change : Rearrangement) (statements : List Statement) :
    (change.generated statements).length = statements.length := by
  unfold generated
  split
  · rfl
  · exact List.length_map _

/-- Nothing is generated in rules without penalties. -/
theorem generated_rules (change : Rearrangement) {statements : List Statement}
    (rules : ∀ statement ∈ statements, ∃ rule, statement = .rule rule) :
    change.generated statements = statements := by
  unfold generated
  split
  · simp at rules
  · refine List.map_congr_left (fun statement member => ?_) |>.trans (List.map_id _)
    obtain ⟨rule, rfl⟩ := rules statement member
    rfl

theorem generated_penalties (change : Rearrangement) {statements : List Statement}
    (penalties : ∀ statement ∈ statements, ∃ constraint, statement = .weakConstraint constraint) :
    change.generated statements = statements.map change.key := by
  unfold generated
  split
  · simp at penalties
  · rfl

end Rearrangement

/-! Variables in the order of their first occurrence. -/

theorem mem_names_firstOccurrences {list : List Variable} {name : String} :
    name ∈ (firstOccurrences list).map Variable.name ↔ name ∈ list.map Variable.name := by
  induction list with
  | nil => rfl
  | cons x others inductionHypothesis =>
      rw [firstOccurrences, List.map_cons, List.map_cons, List.mem_cons, List.mem_cons,
        ← inductionHypothesis]
      by_cases isFirst : name = x.name
      · simp [isFirst]
      · simp only [isFirst, false_or, List.mem_map, List.mem_filter, bne_iff_ne]
        constructor
        · rintro ⟨y, ⟨member, -⟩, rfl⟩
          exact ⟨y, member, rfl⟩
        · rintro ⟨y, member, rfl⟩
          exact ⟨y, ⟨member, isFirst⟩, rfl⟩

/-- Variables that are met in another order are the same ones in another order. -/
theorem exists_rearrangement {first second : List Variable} (permuted : first.Perm second) :
    ∃ change : Rearrangement, change.list ((firstOccurrences first).map Variable.name) =
      (firstOccurrences second).map Variable.name := by
  refine Rearrangement.exists_list_eq (nodup_firstOccurrences first) ?_
  rw [List.perm_ext_iff_of_nodup (nodup_firstOccurrences first) (nodup_firstOccurrences second)]
  intro name
  rw [mem_names_firstOccurrences, mem_names_firstOccurrences]
  exact (permuted.map Variable.name).mem_iff

/-- The tuple of some variables. -/
def variableTuple (list : List Variable) : Term := .tuple (list.map .var)

theorem Rearrangement.tuple_erase {change : Rearrangement} {first second : List Variable}
    (names : change.list (first.map Variable.name) = second.map Variable.name) :
    (change.tuple (variableTuple first)).erase = (variableTuple second).erase := by
  have view (list : List Variable) : (list.map Term.var).map Term.erase =
      (list.map Variable.name).map fun name => .var ⟨name, none⟩ := by
    simp [Term.erase, Variable.erase]
  simp only [variableTuple, Term.tuple, tuple, Term.erase, Term.eraseAll_eq]
  rw [map_list, view, view, ← map_list, names]

/-! Statements up to the order of their bodies. -/

/-- The same elements in some order. -/
def SameElements (body body' : List BodyElement) : Prop :=
  ∃ between, body.Perm between ∧ BodyElement.sameAll between body' = true

theorem SameElements.of_perm {body body' : List BodyElement} (permuted : body.Perm body') :
    SameElements body body' :=
  ⟨body', permuted, (BodyElement.sameAll_iff _ _).mpr rfl⟩

theorem SameElements.cons {element element' : BodyElement} {body body' : List BodyElement}
    (first : element.same element' = true) (others : SameElements body body') :
    SameElements (element :: body) (element' :: body') := by
  obtain ⟨between, permuted, same⟩ := others
  exact ⟨element :: between, permuted.cons element, by simp [BodyElement.sameAll, first, same]⟩

/-- Statements that differ at most in the order of their bodies. -/
def Statement.SameUpToOrder : Statement → Statement → Prop
  | .rule first, .rule second =>
      first.head.same second.head = true ∧ SameElements first.body second.body
  | .weakConstraint first, .weakConstraint second =>
      first.weight.same second.weight = true ∧ first.priority.same second.priority = true ∧
        Term.sameAll first.terms second.terms = true ∧ SameElements first.body second.body
  | _, _ => False

theorem Statement.sameUpToOrder_rule {head : Head} {body body' : List BodyElement}
    {origin : Origin} (permuted : body.Perm body') :
    (Statement.rule { head, body, origin }).SameUpToOrder (.rule { head, body := body', origin }) :=
  ⟨(Head.same_iff _ _).mpr rfl, .of_perm permuted⟩

theorem Statement.sameUpToOrder_penalty {body body' : List BodyElement} {weight priority : Term}
    {terms terms' : List Term} {origin : Origin} (keys : Term.sameAll terms terms' = true)
    (bodies : SameElements body body') :
    (Statement.weakConstraint { body, weight, priority, terms, origin }).SameUpToOrder
      (.weakConstraint { body := body', weight, priority, terms := terms', origin }) :=
  ⟨(Term.same_iff _ _).mpr rfl, (Term.same_iff _ _).mpr rfl, keys, bodies⟩

/-- The statements are the same up to the order of their bodies, once the generated tuples have been
rearranged. -/
def SameUpToTuples (statements statements' : List Statement) : Prop :=
  ∃ change : Rearrangement,
    List.Forall₂ Statement.SameUpToOrder (change.generated statements) statements'

theorem SameUpToTuples.length_eq {statements statements' : List Statement}
    (same : SameUpToTuples statements statements') : statements'.length = statements.length := by
  obtain ⟨change, along⟩ := same
  rw [← along.length_eq, change.length_generated]

theorem SameUpToTuples.of_rules {statements : List Statement}
    (rules : ∀ statement ∈ statements, ∃ rule, statement = .rule rule) :
    SameUpToTuples statements statements := by
  refine ⟨⟨0, [], .nil⟩, ?_⟩
  rw [Rearrangement.generated_rules _ rules, List.forall₂_same]
  intro statement member
  obtain ⟨rule, rfl⟩ := rules statement member
  exact Statement.sameUpToOrder_rule (.refl _)

theorem SameUpToTuples.of_perm {head : Head} {body body' : List BodyElement} {origin : Origin}
    (permuted : body.Perm body') :
    SameUpToTuples [.rule { head, body, origin }] [.rule { head, body := body', origin }] := by
  refine ⟨⟨0, [], .nil⟩, ?_⟩
  rw [Rearrangement.generated_rules _ (by simp)]
  exact .cons (Statement.sameUpToOrder_rule permuted) .nil

/-! Rules that are read in another order. -/

theorem eq_of_perm_of_length_le_one {α : Type} {first second : List α}
    (permuted : first.Perm second) (few : first.length ≤ 1) : first = second := by
  cases first with
  | nil => exact permuted.nil_eq
  | cons value others =>
      have last : others = [] := by simpa using few
      rw [last] at permuted ⊢
      exact (List.singleton_perm.mp permuted)

theorem length_filterMap_le {α β γ : Type} {first : α → Option β} {second : α → Option γ}
    (implies : ∀ {value}, (first value).isSome = true → (second value).isSome = true)
    (list : List α) : (list.filterMap first).length ≤ (list.filterMap second).length := by
  rw [List.length_filterMap_eq_countP, List.length_filterMap_eq_countP]
  exact List.countP_mono_left fun _ _ => implies

/-- What two rules have in common whose bodies differ in their order. -/
structure ProfiledRule.Reordered (rule rule' : ProfiledRule) : Prop where
  head : rule'.head = rule.head
  body : rule.body.Perm rule'.body
  weight : rule'.profile.weight = rule.profile.weight
  treatment : rule'.profile.treatment = rule.profile.treatment
  evidence : rule'.profile.evidence = rule.profile.evidence
  globals : ∃ change : Rearrangement, change.list (rule.profile.globals.map Variable.name) =
    rule'.profile.globals.map Variable.name

namespace Rule

variable {power : Int} {source : Rule} {body : List BodyElement}

theorem IsReadable.perm (readable : source.IsReadable power) (permuted : source.body.Perm body) :
    Rule.IsReadable power { source with body } where
  head := readable.head
  body element member := readable.body element (permuted.mem_iff.mpr member)
  weights := (permuted.filterMap BodyElement.formula?).length_eq ▸ readable.weights

theorem treatments_perm (permuted : source.body.Perm body) :
    source.treatments.Perm (treatments { source with body }) :=
  (permuted.filterMap BodyElement.treatment?).append_left _

theorem length_evidences_le : source.evidences.length ≤ source.treatments.length := by
  have head : source.head.evidence?.toList.length ≤ source.head.treatment?.toList.length := by
    cases states : source.head.evidence? with
    | none => exact Nat.zero_le _
    | some literal =>
        obtain ⟨treatment, asked⟩ := Option.isSome_iff_exists.mp
          (Head.treatment?_isSome_of_evidence? (by rw [states]; rfl))
        simp [asked]
  have body : (source.body.filterMap BodyElement.evidence?).length ≤ source.bodyTreatments.length :=
    length_filterMap_le BodyElement.treatment?_isSome_of_evidence? _
  rw [evidences, treatments, List.length_append, List.length_append]
  exact Nat.add_le_add head body

/-- A rule with a permuted body is read in the same way. -/
theorem profile_perm {rule : ProfiledRule} (few : source.treatments.length ≤ 1)
    (permuted : source.body.Perm body) (profiled : (source.profile power).result = .ok rule) :
    ∃ rule', (Rule.profile power { source with body }).result = .ok rule' ∧
      rule.Reordered rule' := by
  have readable : source.IsReadable power := by
    rw [← profile_isOk_iff, profiled]
    rfl
  obtain ⟨rule', profiled'⟩ := Except.exists_eq_ok (profile_isOk_iff.mpr (readable.perm permuted))
  refine ⟨rule', profiled', ?_⟩
  have weights : source.weights power = weights power { source with body } := by
    refine eq_of_perm_of_length_le_one (permuted.filterMap _) ?_
    exact (length_filterMap_le BodyElement.formula?_isSome_of_weight? _).trans readable.weights
  have evidences : source.evidences = evidences { source with body } := by
    refine eq_of_perm_of_length_le_one ((permuted.filterMap _).append_left _) ?_
    exact length_evidences_le.trans few
  exact {
    head := by rw [(profile_settled profiled).1, (profile_settled profiled').1]
    body := by
      rw [(profile_settled profiled).2, (profile_settled profiled').2]
      exact permuted.map _
    weight := by
      refine RuleWeight.soft?_injective ?_
      rw [profile_soft? profiled, profile_soft? profiled', weights]
    treatment := by
      rw [profile_treatment profiled, profile_treatment profiled',
        eq_of_perm_of_length_le_one (treatments_perm permuted) few]
    evidence := by rw [profile_evidence profiled, profile_evidence profiled', evidences]
    globals := by
      rw [profile_globals profiled, profile_globals profiled']
      exact exists_rearrangement (((permuted.flatMap_right _).append_left _).filter _) }

end Rule

/-! Statements for rules that are read in another order. -/

section Expansion

variable {penalty : Penalty} {globals : Term} {change : Rearrangement} {head : Head}
  {notHead : Literal} {body body' : List BodyElement} {origin : Origin}

theorem Rearrangement.mark_violation
    (tuples : (change.tuple penalty.globals).erase = globals.erase) (sign : Sign) (place : Origin) :
    (change.mark ⟨sign, penalty.violation, place⟩).same
      ⟨sign, { penalty with globals }.violation, place⟩ = true := by
  simp [Literal.same_iff, Penalty.violation, mark, List.modifyLast, List.modifyLast.go,
    Literal.erase, Atom.erase, Term.erase, Term.eraseAll, tuples]

theorem Rearrangement.key_weakConstraint
    (tuples : (change.tuple penalty.globals).erase = globals.erase)
    (bodies : SameElements body body') :
    (change.key (penalty.weakConstraint body origin)).SameUpToOrder
      ({ penalty with globals }.weakConstraint body' origin) := by
  refine Statement.sameUpToOrder_penalty ?_ bodies
  simp [Term.sameAll_iff, List.modifyLast, List.modifyLast.go, Term.eraseAll, tuples]

theorem markedEncoding_reordered
    (tuples : (change.tuple penalty.globals).erase = globals.erase) (permuted : body.Perm body') :
    List.Forall₂ Statement.SameUpToOrder
      (change.generated (markedEncoding penalty origin head notHead body))
      (markedEncoding { penalty with globals } origin head notHead body') := by
  have marked := Rearrangement.mark_violation tuples .plain notHead.origin
  have unmarked := Rearrangement.mark_violation tuples .negated notHead.origin
  refine .cons ⟨marked, .of_perm (permuted.cons _)⟩ (.cons ⟨?_, ?_⟩ (.cons ?_ .nil))
  · exact (Head.same_iff _ _).mpr rfl
  · exact .cons unmarked (.of_perm permuted)
  · exact Rearrangement.key_weakConstraint tuples (.cons marked (.of_perm .nil))

theorem choiceEncoding_reordered {mode : Mode}
    (tuples : (change.tuple penalty.globals).erase = globals.erase) (permuted : body.Perm body') :
    List.Forall₂ Statement.SameUpToOrder
      (change.generated (choiceEncoding mode penalty origin head notHead body))
      (choiceEncoding mode { penalty with globals } origin head notHead body') := by
  unfold choiceEncoding
  cases head.choice? with
  | some choice =>
      refine .cons (Statement.sameUpToOrder_rule permuted) (.cons ?_ .nil)
      exact Rearrangement.key_weakConstraint tuples (.of_perm ((permuted.cons _).append_left _))
  | none =>
      refine .cons ?_ .nil
      exact Rearrangement.key_weakConstraint tuples (.of_perm (permuted.append_left _))

theorem Penalty.ofProfile_eq {profile profile' : Profile} {index : Nat}
    (weight : profile'.weight = profile.weight) :
    Penalty.ofProfile index profile' =
      { Penalty.ofProfile index profile with globals := variableTuple profile'.globals } := by
  unfold Penalty.ofProfile
  rw [weight]
  cases profile.weight <;> rfl

/-- The encodings of two rules whose bodies differ in their order. -/
theorem expansion_reordered {rule rule' : ProfiledRule} {mode : Mode} {index : Nat}
    (reordered : rule.Reordered rule') :
    SameUpToTuples (rule.expansion mode index origin) (rule'.expansion mode index origin) := by
  obtain ⟨change, names⟩ := reordered.globals
  have tuples : (change.tuple (Penalty.ofProfile index rule.profile).globals).erase =
      (variableTuple rule'.profile.globals).erase := by
    have globals : (Penalty.ofProfile index rule.profile).globals =
        variableTuple rule.profile.globals := by
      rw [Penalty.ofProfile_eq rfl]
    rw [globals, Rearrangement.tuple_erase names]
  refine ⟨change, ?_⟩
  unfold ProfiledRule.expansion
  rw [reordered.head, Penalty.ofProfile_eq reordered.weight]
  cases rule.head.negation? with
  | none =>
      rw [change.generated_rules (by simp)]
      exact .cons (Statement.sameUpToOrder_rule reordered.body) .nil
  | some notHead =>
      cases marked : mode.markViolations with
      | true =>
          simp only [if_true]
          exact markedEncoding_reordered tuples reordered.body
      | false =>
          simp only [Bool.false_eq_true, if_false]
          exact choiceEncoding_reordered tuples reordered.body

end Expansion

namespace Plog

variable {remark : TheoryAtom} {body body' : List BodyElement} {statements : List Statement}

/-- What is made of the atoms of elements can be made in another way as well. -/
theorem exists_makes {α : Type} {make : Element Literal → Term → α}
    {elements : List (Element Literal)} {values : List α} (make' : Element Literal → Term → α)
    (along : List.Forall₂ (Makes remark make) elements values) :
    ∃ values', List.Forall₂ (Makes remark make') elements values' ∧
      List.Forall₂ (fun value value' => ∃ element atom, value = make element atom ∧
        value' = make' element atom) values values' := by
  induction along with
  | nil => exact ⟨[], .nil, .nil⟩
  | @cons element value elements values made others inductionHypothesis =>
      obtain ⟨atom, isAtom, rfl⟩ := made
      obtain ⟨values', along', related⟩ := inductionHypothesis
      exact ⟨make' element atom :: values', .cons ⟨atom, isAtom, rfl⟩ along',
        .cons ⟨element, atom, rfl, rfl⟩ related⟩

theorem random_reordered (permuted : body.Perm body')
    (converted : (random remark body).result = .ok statements) :
    ∃ statements', (random remark body').result = .ok statements' ∧
      SameUpToTuples statements statements' := by
  simp only [random, Logged.result_bind_eq_ok] at converted ⊢
  obtain ⟨elements, found, choices, chosen, _, written, made⟩ := converted
  cases made
  exact ⟨_, ⟨elements, found, choices, chosen, _, written, rfl⟩, .of_perm permuted⟩

theorem exists_bodyVariables (permuted : body.Perm body') :
    ∃ change : Rearrangement, change.list ((bodyVariables body).map Variable.name) =
      (bodyVariables body').map Variable.name := by
  have listed (body : List BodyElement) : bodyVariables body =
      firstOccurrences ((body.flatMap BodyElement.vars).filter fun x => !x.isAnonymous) := by
    rw [bodyVariables, foldl_addVariable]
    simp
  rw [listed, listed]
  exact exists_rearrangement ((permuted.flatMap_right _).filter _)

theorem penalty_reordered {change : Rearrangement} {weight : Weight} {element : Element Literal}
    {atom : Term} (permuted : body.Perm body')
    (names : change.list ((bodyVariables body).map Variable.name) =
      (bodyVariables body').map Variable.name) :
    (change.key (.weakConstraint (penalty weight remark body element atom))).SameUpToOrder
      (.weakConstraint (penalty weight remark body' element atom)) := by
  have tuples := Rearrangement.tuple_erase names
  refine Statement.sameUpToOrder_penalty ?_ (.of_perm (permuted.append_left _))
  simp only [variableTuple] at tuples
  simp [Term.sameAll_iff, penalty, List.modifyLast, List.modifyLast.go, Term.eraseAll, tuples]

theorem probability_reordered {power : Int} (permuted : body.Perm body')
    (converted : (probability power remark body).result = .ok statements) :
    ∃ statements', (probability power remark body').result = .ok statements' ∧
      SameUpToTuples statements statements' := by
  obtain ⟨stated, weight, isStated, computed, nonempty, charged⟩ :=
    probability_ok_iff.mp converted
  obtain ⟨change, names⟩ := exists_bodyVariables permuted
  obtain ⟨statements', charged', related⟩ :=
    exists_makes (fun element atom =>
      .weakConstraint (penalty weight remark body' element atom)) charged
  refine ⟨statements', probability_ok_iff.mpr
    ⟨stated, weight, isStated, computed, nonempty, charged'⟩, change, ?_⟩
  have penalties : ∀ statement ∈ statements, ∃ constraint,
      statement = .weakConstraint constraint := by
    intro statement member
    obtain ⟨element, -, atom, -, rfl⟩ := exists_of_forall₂ charged statement member
    exact ⟨_, rfl⟩
  rw [change.generated_penalties penalties, List.forall₂_map_left_iff]
  refine related.imp fun statement statement' made => ?_
  obtain ⟨element, atom, rfl, rfl⟩ := made
  exact penalty_reordered permuted names

/-- The statements of an observation do not depend on the body. -/
theorem observation_reordered (converted : (observation remark).result = .ok statements) :
    SameUpToTuples statements statements := by
  simp only [observation_eq, Logged.result_bind_eq_ok] at converted
  obtain ⟨value, -, elements, -, converted⟩ := converted
  refine SameUpToTuples.of_rules fun statement member => ?_
  obtain ⟨element, -, atom, -, rfl⟩ :=
    exists_of_forall₂ (makes_of_forElements converted) statement member
  exact ⟨_, rfl⟩

end Plog

theorem PlogEncoder.convert_reordered {power : Int} {treatment : Treatment} {remark : TheoryAtom}
    {body body' : List BodyElement} {statements : List Statement} (permuted : body.Perm body')
    (converted : ((PlogEncoder.standard power).convert treatment remark body).result =
      .ok statements) :
    ∃ statements', ((PlogEncoder.standard power).convert treatment remark body').result =
      .ok statements' ∧ SameUpToTuples statements statements' := by
  unfold PlogEncoder.convert at converted ⊢
  split at converted
  · exact Plog.random_reordered permuted converted
  · exact Plog.probability_reordered permuted converted
  · exact ⟨statements, converted, Plog.observation_reordered converted⟩

namespace Session

variable {session after : Session} {source : Rule} {body : List BodyElement}
  {statements : List Statement}

/-- The step for a rule can also be taken for the rule with a permuted body. -/
theorem RuleStep.permuted {power : Int} (standard : session.plog = .standard power)
    (few : source.treatments.length ≤ 1) (permuted : source.body.Perm body)
    (step : session.RuleStep source statements after) :
    ∃ statements', session.RuleStep { source with body } statements' after ∧
      SameUpToTuples statements statements' := by
  have stillFresh (fresh : ¬ source.IsFact) : ¬ Rule.IsFact { source with body } := by
    rintro ⟨plain, empty⟩
    exact fresh ⟨plain, (empty ▸ permuted : source.body.Perm []).eq_nil⟩
  cases step with
  | fact fact =>
      have empty : body = [] := (fact.2 ▸ permuted : [].Perm body).nil_eq.symm
      exact ⟨_, .fact ⟨fact.1, empty⟩, .of_perm permuted⟩
  | query fresh profiled treated =>
      obtain ⟨rule', profiled', reordered⟩ := Rule.profile_perm few permuted profiled
      exact ⟨_, .query (stillFresh fresh) profiled' (reordered.treatment.trans treated),
        .of_perm permuted⟩
  | @evidence rule forbidden fresh profiled treated forbids =>
      obtain ⟨rule', profiled', reordered⟩ := Rule.profile_perm few permuted profiled
      have forbids' : rule'.forbidden.result = .ok forbidden := by
        rw [← forbids, ProfiledRule.forbidden, ProfiledRule.forbidden, reordered.evidence,
          reordered.head]
      exact ⟨_, .evidence (stillFresh fresh) profiled' (reordered.treatment.trans treated) forbids',
        .of_rules (by simp)⟩
  | @plog rule treatment _ fresh profiled treated special converted nonempty =>
      obtain ⟨rule', profiled', reordered⟩ := Rule.profile_perm few permuted profiled
      rw [encodePlog_result, Logged.result_bind_eq_ok, standard] at converted
      obtain ⟨remark, isHead, converted⟩ := converted
      obtain ⟨statements', converted', same⟩ :=
        PlogEncoder.convert_reordered reordered.body converted
      refine ⟨statements', .plog (stillFresh fresh) profiled' (reordered.treatment.trans treated)
        special ?_ (PlogEncoder.convert_ne_nil converted'), same⟩
      rw [encodePlog_result, Logged.result_bind_eq_ok, standard, reordered.head]
      exact ⟨remark, isHead, converted'⟩
  | kept fresh profiled untreated hard off =>
      obtain ⟨rule', profiled', reordered⟩ := Rule.profile_perm few permuted profiled
      exact ⟨_, .kept (stillFresh fresh) profiled' (reordered.treatment.trans untreated)
        (reordered.weight ▸ hard) off, .of_perm permuted⟩
  | encoded fresh profiled untreated on plain =>
      obtain ⟨rule', profiled', reordered⟩ := Rule.profile_perm few permuted profiled
      exact ⟨_, .encoded (stillFresh fresh) profiled' (reordered.treatment.trans untreated)
        (reordered.weight ▸ on) (reordered.head ▸ plain), expansion_reordered reordered⟩

/-- The order of the body does not matter for a rule with one treatment at most. The rule with a
permuted body fails if the rule fails. Otherwise it leaves the session in the same state and is
replaced by as many statements, which have the same heads, weights, priorities and keys once the
generated tuples have been brought into one and the same other order, and bodies with the same
elements. -/
theorem encodeRule_of_perm (mode : Mode) (power : Int) (index : Nat)
    (few : source.treatments.length ≤ 1) (permuted : source.body.Perm body) :
    let session : Session := { mode, plog := .standard power, index }
    let result := (session.encodeRule source).result
    let result' := (session.encodeRule { source with body }).result
    (result.isOk = false ∧ result'.isOk = false) ∨
      ∃ expansion expansion' after, result = .ok (expansion, after) ∧
        result' = .ok (expansion', after) ∧
        expansion'.statements.length = expansion.statements.length ∧
        SameUpToTuples expansion.statements expansion'.statements := by
  intro session result result'
  cases reached : result with
  | ok value =>
      obtain ⟨expansion, after⟩ := value
      have step := encodeRule_iff_step.mp reached
      obtain ⟨statements', step', same⟩ := step.permuted rfl few permuted
      obtain ⟨expansion', rfl⟩ := Expansion.exists_statements step'.statements_ne_nil
      exact .inr ⟨expansion, expansion', after, rfl, encodeRule_iff_step.mpr step',
        same.length_eq, same⟩
  | error error =>
      refine .inl ⟨rfl, ?_⟩
      cases reached' : result' with
      | error error' => rfl
      | ok value =>
          -- A step for the permuted rule would be one for the rule itself.
          obtain ⟨expansion', after⟩ := value
          have few' : (Rule.treatments { source with body }).length ≤ 1 :=
            (Rule.treatments_perm permuted).length_eq ▸ few
          obtain ⟨statements, step, -⟩ :=
            (encodeRule_iff_step.mp reached').permuted rfl few' permuted.symm
          obtain ⟨expansion, rfl⟩ := Expansion.exists_statements step.statements_ne_nil
          cases reached.symm.trans (encodeRule_iff_step.mpr step)

/-- The rule `p(X) :- q(Y,X), &weight(2), not r(Z).` -/
def threeVariables : Rule where
  head := .literal (.positive (.predicate (.function "p" [.var ⟨"X", none⟩])))
  body := [
    .literal (.positive (.predicate (.function "q" [.var ⟨"Y", none⟩, .var ⟨"X", none⟩]))),
    .theory { name := "weight", arguments := [.number 2] },
    .literal (.negative (.predicate (.function "r" [.var ⟨"Z", none⟩])))]

theorem encodeRule_of_perm_reversed :
    let session : Session := { mode := { markViolations := true }, plog := .standard 5, index := 7 }
    let reversed : Rule := { threeVariables with body := threeVariables.body.reverse }
    ∃ expansion expansion' after,
      (session.encodeRule threeVariables).result = .ok (expansion, after) ∧
        (session.encodeRule reversed).result = .ok (expansion', after) ∧
        expansion'.statements.length = expansion.statements.length ∧
        SameUpToTuples expansion.statements expansion'.statements := by
  intro session reversed
  have isOk : (session.encodeRule threeVariables).result.isOk = true := by decide +kernel
  have few : threeVariables.treatments.length ≤ 1 := by decide
  rcases encodeRule_of_perm { markViolations := true } 5 7 few
    (List.reverse_perm threeVariables.body).symm with ⟨failed, -⟩ | both
  · cases failed.symm.trans isOk
  · exact both

end Session

end SoftRules
