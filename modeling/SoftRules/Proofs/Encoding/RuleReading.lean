import SoftRules.Proofs.Encoding.GroundRule
import SoftRules.Proofs.Encoding.KeyVariables

/-!
What is read off a rule.

`Rule.ReadAs` says it part by part, without the traversal that collects a profile: which literals
take the place of annotations, when a rule has a weight, which annotation decides on its treatment
and which of its variables are global. `Rule.profile_readAs` shows that the traversal does just
that. It follows the relations of a traversal with the profile in the middle of it, so each part is
stated for any profile to start from.
-/

set_option autoImplicit false

namespace SoftRules

/-! Variables in the order of their first occurrence. -/

/-- The first variable of each name. -/
def firstOccurrences : List Variable → List Variable
  | [] => []
  | x :: others => x :: (firstOccurrences others).filter fun y => y.name != x.name

theorem nodup_firstOccurrences (list : List Variable) :
    ((firstOccurrences list).map Variable.name).Nodup := by
  induction list with
  | nil => exact List.nodup_nil
  | cons x others inductionHypothesis =>
      rw [firstOccurrences, List.map_cons, List.nodup_cons]
      constructor
      · simp
      · exact (List.filter_sublist.map Variable.name).nodup inductionHypothesis

/-- Variables are added to the known ones by their first occurrences, if they have a name that is
not known yet. -/
theorem foldl_addVariable (met known : List Variable) :
    met.foldl addVariable known =
      known ++ (firstOccurrences (met.filter fun x => !x.isAnonymous)).filter
        fun x => !known.any (·.name == x.name) := by
  induction met generalizing known with
  | nil => simp [firstOccurrences]
  | cons y met inductionHypothesis =>
      rw [List.foldl_cons, inductionHypothesis]
      cases anonymous : y.isAnonymous with
      | true => simp [addVariable, anonymous]
      | false =>
          rw [List.filter_cons_of_pos (by simp [anonymous]), firstOccurrences]
          cases isKnown : known.any (·.name == y.name) with
          | true =>
              rw [List.filter_cons_of_neg (by simp [isKnown]), List.filter_filter]
              simp only [addVariable, anonymous, isKnown, Bool.false_or, if_true]
              congr 1
              refine List.filter_congr fun x _ => ?_
              by_cases same : x.name = y.name
              · simp [same, isKnown]
              · simp [same]
          | false =>
              rw [List.filter_cons_of_pos (by simp [isKnown]), List.filter_filter]
              simp only [addVariable, anonymous, isKnown, Bool.false_or, Bool.false_eq_true,
                if_false, List.append_assoc, List.singleton_append]
              congr 2
              refine List.filter_congr fun x _ => ?_
              rw [List.any_append, Bool.not_or, List.any_cons, List.any_nil, Bool.or_false,
                Bool.beq_comm]
              rfl

/-! Annotations. -/

namespace TheoryAtom

/-- The formula of an annotation that gives a weight. -/
def formula? (remark : TheoryAtom) : Option WeightFormula := WeightFormula.ofName? remark.name

/-- The literal that evidence forbids: that its first argument does not hold, or that it does if the
second argument is `false`. -/
def forbidden? (remark : TheoryAtom) : Option Literal :=
  remark.arguments.head?.map fun atom =>
    { sign := if remark.arguments[1]?.bind Term.constant? = some "false" then .plain else .negated
      atom := .predicate atom
      origin := remark.origin }

/-- The literal that takes the place of an annotation: `#true` for a weight, and for evidence what
it forbids. All other annotations stay. -/
def substitute? (remark : TheoryAtom) : Option Literal :=
  if remark.formula?.isSome then some { Literal.boolean true with origin := remark.origin }
  else if remark.treatment? = some .evidence then remark.forbidden?
  else none

end TheoryAtom

namespace BodyElement

def formula? : BodyElement → Option WeightFormula
  | .theory remark => remark.formula?
  | _ => none

/-- The element with a literal in the place of a weight or of evidence. -/
def settled : BodyElement → BodyElement
  | .theory remark => (remark.substitute?.map BodyElement.literal).getD (.theory remark)
  | element => element

end BodyElement

/-- The head with a literal in the place of evidence. -/
def Head.settled : Head → Head
  | .theory remark => (remark.substitute?.map Head.literal).getD (.theory remark)
  | head => head

namespace Rule

/-- The formulas of the weights in the body. -/
def formulas (rule : Rule) : List WeightFormula := rule.body.filterMap BodyElement.formula?

/-- The variables at global positions, with repetitions. -/
def globals (rule : Rule) : List Variable :=
  rule.head.globals ++ rule.body.flatMap BodyElement.globals

/-- What is read off a rule: the rule itself with literals in the place of weights and evidence, and
its profile. -/
structure ReadAs (source : Rule) (rule : ProfiledRule) : Prop where
  head : rule.head = source.head.settled
  body : rule.body = source.body.map BodyElement.settled
  weights : source.formulas.length ≤ 1
  weighed : rule.profile.weight.isHard = false ↔ source.formulas.length = 1
  treatment : rule.profile.treatment = source.treatments.getLast?
  globals : rule.profile.globals =
    firstOccurrences (source.globals.filter fun x => !x.isAnonymous)
  distinct : (rule.profile.globals.map Variable.name).Nodup

end Rule

section Read

variable {power : Int} {profile after : Profile}

theorem evidenceLiteral_ok {remark : TheoryAtom} {literal : Literal}
    (stated : evidenceLiteral remark = .ok literal) : remark.forbidden? = some literal := by
  have forbids {atom : Term} {value : Option String}
      (stated : evidenceLiteral.literal remark atom value = .ok literal) :
      some { sign := if value = some "false" then .plain else .negated,
             atom := .predicate atom, origin := remark.origin } = some literal := by
    unfold evidenceLiteral.literal at stated
    split at stated
    · cases stated
    · simpa using stated
  unfold evidenceLiteral at stated
  split at stated
  · next single => simpa [TheoryAtom.forbidden?, single] using forbids stated
  · next pair => simpa [TheoryAtom.forbidden?, pair] using forbids stated
  · cases stated

/-- An annotation that asks for a treatment gives no weight. -/
theorem TheoryAtom.formula?_eq_none {remark : TheoryAtom} {treatment : Treatment}
    (named : Treatment.ofName? remark.name = some treatment) : remark.formula? = none := by
  cases found : remark.formula? with
  | none => rfl
  | some formula => simp [Treatment.ofName?_eq_none found] at named

/-- What is read as a literal is replaced by it, and all other annotations are kept. -/
theorem TheoryAtom.Read.settled {remark : TheoryAtom} {reading : Reading}
    (read : remark.Read power profile reading after) :
    reading.toBodyElement = BodyElement.settled (.theory remark) ∧
      reading.toHead = Head.settled (.theory remark) := by
  cases read with
  | treatment named other =>
      simp [BodyElement.settled, Head.settled, TheoryAtom.substitute?,
        TheoryAtom.formula?_eq_none named, TheoryAtom.treatment?, named, other,
        Reading.toBodyElement, Reading.toHead]
  | evidence named stated =>
      simp [BodyElement.settled, Head.settled, TheoryAtom.substitute?,
        TheoryAtom.formula?_eq_none named, TheoryAtom.treatment?, named,
        evidenceLiteral_ok stated, Reading.toBodyElement, Reading.toHead]
  | weight unnamed named single first computed =>
      simp [BodyElement.settled, Head.settled, TheoryAtom.substitute?, TheoryAtom.formula?, named,
        Reading.toBodyElement, Reading.toHead]

/-- What the weight of a rule becomes behind an element or a body that gives it some weights. -/
def Profile.Weighs (profile : Profile) (formulas : List WeightFormula) (after : Profile) : Prop :=
  (formulas = [] ∧ after.weight = profile.weight) ∨
    (formulas.length = 1 ∧ profile.weight.isHard = true ∧ after.weight.isHard = false)

/-- Weights add up, but the second one of two is never read. -/
theorem Profile.Weighs.append {middle : Profile} {first second : List WeightFormula}
    (before : profile.Weighs first middle) (behind : middle.Weighs second after) :
    profile.Weighs (first ++ second) after := by
  rcases before with ⟨rfl, same⟩ | ⟨single, hard, soft⟩
  · rwa [Weighs, same] at behind
  · rcases behind with ⟨rfl, same⟩ | ⟨-, stillHard, -⟩
    · exact .inr ⟨by simp [single], hard, same ▸ soft⟩
    · simp [soft] at stillHard

theorem TheoryAtom.Read.weighs {remark : TheoryAtom} {reading : Reading}
    (read : remark.Read power profile reading after) :
    profile.Weighs remark.formula?.toList after := by
  cases read with
  | treatment named other => exact .inl ⟨by simp [TheoryAtom.formula?_eq_none named], rfl⟩
  | evidence named stated => exact .inl ⟨by simp [TheoryAtom.formula?_eq_none named], rfl⟩
  | weight unnamed named single first computed =>
      exact .inr ⟨by simp [TheoryAtom.formula?, named], by rw [first]; rfl, rfl⟩

variable {element element' : BodyElement} {body found : List BodyElement}

theorem BodyElement.Profiled.settled (profiled : element.Profiled power profile element' after) :
    element' = element.settled := by
  cases profiled with
  | literal content => rfl
  | conditional content => rfl
  | theory read => exact read.settled.1

theorem BodyElement.Profiled.weighs (profiled : element.Profiled power profile element' after) :
    profile.Weighs element.formula?.toList after := by
  cases profiled with
  | literal content => exact .inl ⟨rfl, rfl⟩
  | conditional content => exact .inl ⟨rfl, rfl⟩
  | theory read => exact read.weighs

theorem BodyElement.Profiled.globals_eq (profiled : element.Profiled power profile element' after) :
    after.globals = element.globals.foldl addVariable profile.globals := by
  cases profiled with
  | literal content => rfl
  | conditional content => rfl
  | theory read => exact read.globals_eq

theorem BodyElement.ProfiledAll.settled (profiled : ProfiledAll power profile body found after) :
    found = body.map BodyElement.settled := by
  induction profiled with
  | nil profile => rfl
  | cons first others inductionHypothesis =>
      rw [List.map_cons, first.settled, inductionHypothesis]

theorem BodyElement.ProfiledAll.weighs (profiled : ProfiledAll power profile body found after) :
    profile.Weighs (body.filterMap BodyElement.formula?) after := by
  induction profiled with
  | nil profile => exact .inl ⟨rfl, rfl⟩
  | @cons profile middle after element element' body body' first others inductionHypothesis =>
      have together := first.weighs.append inductionHypothesis
      cases found : element.formula? with
      | none => simpa [found] using together
      | some formula => simpa [found] using together

theorem BodyElement.ProfiledAll.globals_eq
    (profiled : ProfiledAll power profile body found after) :
    after.globals = (body.flatMap BodyElement.globals).foldl addVariable profile.globals := by
  induction profiled with
  | nil profile => rfl
  | cons first others inductionHypothesis =>
      rw [inductionHypothesis, first.globals_eq, List.flatMap_cons, List.foldl_append]

variable {head head' : Head}

theorem Head.Profiled.settled (profiled : head.Profiled power profile head' after) :
    head' = head.settled := by
  cases profiled with
  | literal content => rfl
  | aggregate content => rfl
  | theory unweighted read => exact read.settled.2

/-- A head gives no weight. -/
theorem Head.Profiled.weight_eq (profiled : head.Profiled power profile head' after) :
    after.weight = profile.weight := by
  cases profiled with
  | literal content => rfl
  | aggregate content => rfl
  | theory unweighted read =>
      rcases read.weighs with ⟨-, same⟩ | ⟨single, -⟩
      · exact same
      · simp [TheoryAtom.formula?, unweighted] at single

theorem Head.Profiled.globals_eq (profiled : head.Profiled power profile head' after) :
    after.globals = head.globals.foldl addVariable profile.globals := by
  cases profiled with
  | literal content => rfl
  | aggregate content => rfl
  | theory unweighted read => exact read.globals_eq

end Read

namespace Rule

variable {power : Int} {source : Rule} {rule : ProfiledRule}

theorem profile_settled (profiled : (source.profile power).result = .ok rule) :
    rule.head = source.head.settled ∧ rule.body = source.body.map BodyElement.settled := by
  obtain ⟨middle, head, body⟩ := Rule.profile_ok profiled
  exact ⟨head.settled, body.settled⟩

/-- A rule has a weight exactly if its body gives one, and it never gives two. -/
theorem profile_weight (profiled : (source.profile power).result = .ok rule) :
    source.formulas.length ≤ 1 ∧
      (rule.profile.weight.isHard = false ↔ source.formulas.length = 1) := by
  obtain ⟨middle, head, body⟩ := Rule.profile_ok profiled
  have hard : middle.weight = .hard := head.weight_eq
  rcases body.weighs with ⟨none, same⟩ | ⟨single, -, soft⟩
  · simp [formulas, none, same, hard, RuleWeight.isHard]
  · simp [formulas, single, soft]

theorem profile_globals (profiled : (source.profile power).result = .ok rule) :
    rule.profile.globals = firstOccurrences (source.globals.filter fun x => !x.isAnonymous) := by
  obtain ⟨middle, head, body⟩ := Rule.profile_ok profiled
  rw [body.globals_eq, head.globals_eq, ← List.foldl_append, foldl_addVariable]
  simp [globals]

/-- A rule whose annotations can be read is read as itself, with `#true` in the place of weights and
literals in the place of evidence. It has a weight exactly if its body has one annotation for it,
its last annotation decides on its treatment, and its global variables are the named ones at global
positions, in the order of their first occurrence. -/
theorem profile_readAs (profiled : (source.profile power).result = .ok rule) :
    source.ReadAs rule := by
  exact {
    head := (profile_settled profiled).1
    body := (profile_settled profiled).2
    weights := (profile_weight profiled).1
    weighed := (profile_weight profiled).2
    treatment := profile_treatment profiled
    globals := profile_globals profiled
    distinct := by
      rw [profile_globals profiled]
      exact nodup_firstOccurrences _ }

/-- The rule `p(Y,X) :- q(X,Y,_), N < { r(Z) : s(Z) } < M, t(V) : u(V), &evidence(e(W),false),
&query(f(U)), &weight(2).` -/
def assorted : Rule where
  head := .literal (.positive (.predicate (.function "p" [.var ⟨"Y", none⟩, .var ⟨"X", none⟩])))
  body := [
    .literal (.positive (.predicate
      (.function "q" [.var ⟨"X", some ⟨12, 13⟩⟩, .var ⟨"Y", none⟩, .var ⟨"_", none⟩]))),
    .literal (.positive (.aggregate {
      left := some ⟨.less, .var ⟨"N", none⟩⟩
      elements := [{
        literal := .positive (.predicate (.function "r" [.var ⟨"Z", none⟩]))
        condition := [.positive (.predicate (.function "s" [.var ⟨"Z", none⟩]))] }]
      right := some ⟨.less, .var ⟨"M", none⟩⟩ })),
    .conditional {
      literal := .positive (.predicate (.function "t" [.var ⟨"V", none⟩]))
      condition := [.positive (.predicate (.function "u" [.var ⟨"V", none⟩]))] },
    .theory {
      name := "evidence"
      arguments := [.function "e" [.var ⟨"W", none⟩], .constant "false"] },
    .theory { name := "query", arguments := [.function "f" [.var ⟨"U", none⟩]] },
    .theory { name := "weight", arguments := [.number 2], origin := some ⟨90, 100⟩ }]

theorem profile_readAs_assorted :
    ∃ rule, (assorted.profile 0).result = .ok rule ∧ assorted.ReadAs rule ∧
      rule.profile.globals.map Variable.name = ["Y", "X", "N", "M"] := by
  have isOk : (assorted.profile 0).result.isOk = true := by decide +kernel
  obtain ⟨rule, profiled⟩ := Except.exists_eq_ok isOk
  refine ⟨rule, profiled, profile_readAs profiled, ?_⟩
  rw [profile_globals profiled]
  decide

end Rule

end SoftRules
