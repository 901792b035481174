import SoftRules.Encoding.Profile
import Mathlib.Control.Monad.Basic

/-!
What the profile of a rule is, in terms of the rule itself.

A traversal by the profiler rebuilds every term and literal as it was. Outside of conditional
literals and elements it adds the variables that it meets to the global ones; inside of them it
adds nothing. Only theory atoms are replaced or refused.
-/

set_option autoImplicit false

namespace Except

variable {ε α β : Type} {result : Except ε α} {next : α → Except ε β}

@[simp] theorem ok_bind (value : α) (next : α → Except ε β) : ok value >>= next = next value := rfl

@[simp] theorem error_bind (fault : ε) (next : α → Except ε β) :
    error fault >>= next = error fault := rfl

theorem bind_eq_ok {value : β} :
    result >>= next = ok value ↔ ∃ middle, result = ok middle ∧ next middle = ok value := by
  cases result with
  | ok middle => simp
  | error fault => simp

theorem bind_eq_error {fault : ε} :
    result >>= next = error fault ↔
      result = error fault ∨ ∃ middle, result = ok middle ∧ next middle = error fault := by
  cases result with
  | ok middle => simp
  | error other => simp

theorem exists_eq_ok (isOk : result.isOk = true) : ∃ value, result = ok value := by
  cases result with
  | ok value => exact ⟨value, rfl⟩
  | error fault => cases isOk

end Except

namespace SoftRules

namespace Logged

variable {α β γ : Type}

theorem bind_def (step : Logged α) (next : α → Logged β) :
    step >>= next =
      match step.result with
      | .ok value => ⟨(next value).result, step.log ++ (next value).log⟩
      | .error error => ⟨.error error, step.log⟩ := rfl

theorem bind_pure_self (step : Logged α) : step >>= pure = step := by
  obtain ⟨result, log⟩ := step
  cases result with
  | ok value => simp [bind_def]
  | error error => rfl

theorem pure_bind_apply (value : α) (next : α → Logged β) : pure value >>= next = next value := by
  cases reached : next value
  simp [bind_def, reached]

theorem bind_bind (step : Logged α) (next : α → Logged β) (last : β → Logged γ) :
    step >>= next >>= last = step >>= fun value => next value >>= last := by
  obtain ⟨result, log⟩ := step
  cases result with
  | ok value =>
      cases reached : (next value).result with
      | ok other => simp [bind_def, reached]
      | error error => simp [bind_def, reached]
  | error error => rfl

instance : LawfulMonad Logged :=
  LawfulMonad.mk' Logged bind_pure_self pure_bind_apply bind_bind

/-- A computation that succeeds has gone through all of its steps. -/
theorem result_bind_eq_ok {step : Logged α} {next : α → Logged β} {value : β} :
    (step >>= next).result = .ok value ↔
      ∃ middle, step.result = .ok middle ∧ (next middle).result = .ok value := by
  rw [result_bind, Except.bind_eq_ok]

theorem result_bind_eq_error {step : Logged α} {next : α → Logged β} {error : EncodingError} :
    (step >>= next).result = .error error ↔ step.result = .error error ∨
      ∃ middle, step.result = .ok middle ∧ (next middle).result = .error error := by
  rw [result_bind, Except.bind_eq_error]

@[simp] theorem result_map (change : α → β) (step : Logged α) :
    (change <$> step).result = change <$> step.result := by
  rw [← bind_pure_comp, result_bind]
  cases step.result <;> rfl

end Logged

/-- The variables of an atom outside of its elements. -/
def Atom.globals : Atom Literal → List Variable
  | .predicate term _ => term.vars
  | .boolean _ _ => []
  | .comparison left _ right _ => left.vars ++ right.vars
  | .aggregate content => guardVariables content.left content.right
  | .bodyAggregate content => guardVariables content.left content.right

section Variables

variable {met known : List Variable} {x : Variable}

/-- Only named variables are added. -/
theorem mem_addVariable {y : Variable} (member : x ∈ addVariable known y) :
    x ∈ known ∨ (x = y ∧ x.isAnonymous = false) := by
  rw [addVariable] at member
  split at member
  · exact .inl member
  · next added =>
      rcases List.mem_append.mp member with isKnown | isLast
      · exact .inl isKnown
      · rw [Bool.or_eq_true, not_or, Bool.not_eq_true] at added
        rw [List.mem_singleton.mp isLast]
        exact .inr ⟨rfl, added.1⟩

theorem mem_foldl_addVariable (member : x ∈ met.foldl addVariable known) :
    x ∈ known ∨ (x ∈ met ∧ x.isAnonymous = false) := by
  induction met generalizing known with
  | nil => exact .inl member
  | cons y met inductionHypothesis =>
      rcases inductionHypothesis member with isKnown | ⟨isMet, named⟩
      · rcases mem_addVariable isKnown with isKnown | ⟨rfl, named⟩
        · exact .inl isKnown
        · exact .inr ⟨List.mem_cons_self .., named⟩
      · exact .inr ⟨List.mem_cons_of_mem _ isMet, named⟩

theorem subset_addVariable (y : Variable) : known ⊆ addVariable known y := by
  rw [addVariable]
  split
  · exact List.Subset.refl _
  · exact List.subset_append_left _ _

theorem subset_foldl_addVariable : known ⊆ met.foldl addVariable known := by
  induction met generalizing known with
  | nil => exact List.Subset.refl _
  | cons y met inductionHypothesis =>
      exact List.Subset.trans (subset_addVariable y) inductionHypothesis

/-- Every named variable that was met is there under its name. -/
theorem name_mem_foldl_addVariable (member : x ∈ met) (named : x.isAnonymous = false) :
    x.name ∈ (met.foldl addVariable known).map Variable.name := by
  induction met generalizing known with
  | nil => cases member
  | cons y met inductionHypothesis =>
      rcases List.mem_cons.mp member with rfl | later
      · have added : x.name ∈ (addVariable known x).map Variable.name := by
          rw [addVariable, named, Bool.false_or]
          split
          · next isKnown =>
              obtain ⟨y, isKnown, same⟩ := List.any_eq_true.mp isKnown
              exact List.mem_map.mpr ⟨y, isKnown, beq_iff_eq.mp same⟩
          · simp
        rw [List.foldl_cons]
        exact List.map_subset _ subset_foldl_addVariable added
      · exact inductionHypothesis later

end Variables

namespace Profile

/-- The profile once variables have been met in a scope. -/
def meet (profile : Profile) (scope : Scope) (met : List Variable) : Profile :=
  match scope with
  | .outer => { profile with globals := met.foldl addVariable profile.globals }
  | .inner => profile

variable (profile : Profile) (scope : Scope)

@[simp] theorem meet_inner (met : List Variable) : profile.meet .inner met = profile := rfl

@[simp] theorem meet_nil : profile.meet scope [] = profile := by
  cases scope <;> rfl

@[simp] theorem meet_meet (first second : List Variable) :
    (profile.meet scope first).meet scope second = profile.meet scope (first ++ second) := by
  cases scope with
  | outer => simp [meet, List.foldl_append]
  | inner => rfl

end Profile

section Visit

variable (power : Int) (scope : Scope) (profile : Profile)

/-- What the profiler does in a scope to a profile. -/
def profiled {α : Type} (action : Profiling α) : Logged (α × Profile) :=
  (action.run scope).run profile

variable {α β : Type}

@[simp] theorem profiled_pure (value : α) :
    profiled scope profile (pure value) = pure (value, profile) := rfl

@[simp] theorem profiled_bind (action : Profiling α) (next : α → Profiling β) :
    profiled scope profile (action >>= next) =
      profiled scope profile action >>= fun (value, after) => profiled scope after (next value) :=
  rfl

@[simp] theorem profiled_map (change : α → β) (action : Profiling α) :
    profiled scope profile (change <$> action) =
      (fun (value, after) => (change value, after)) <$> profiled scope profile action := by
  rw [← bind_pure_comp, ← bind_pure_comp]
  rfl

@[simp] theorem profiled_withReader (action : Profiling α) :
    profiled scope profile (withReader (fun _ => Scope.inner) action) =
      profiled .inner profile action := rfl

@[simp] theorem profiled_modify (change : Profile → Profile) :
    profiled scope profile (modify change) = pure ((), change profile) := rfl

@[simp] theorem profiled_get : profiled scope profile get = pure (profile, profile) := rfl

@[simp] theorem profiled_logged (step : Logged α) :
    profiled scope profile (liftM step) = (fun value => (value, profile)) <$> step := by
  rw [← bind_pure_comp]
  rfl

theorem profiler_var (x : Variable) :
    profiled scope profile ((profiler power).var x (pure x)) =
      pure (x, profile.meet scope [x]) := by
  cases scope <;> rfl

mutual

theorem Term.visit_profiler (profile : Profile) : (term : Term) →
    profiled scope profile (term.visit (profiler power)) = pure (term, profile.meet scope term.vars)
  | .var x => by
      show profiled scope profile ((profiler power).var x (pure x) >>= _) = _
      simp [profiler_var, Term.vars]
  | .symbol value origin => by simp [Term.visit, profiler, Term.vars]
  | .function name arguments origin => by
      show profiled scope profile (Term.visitAll (profiler power) arguments >>= _) = _
      simp [Term.visitAll_profiler profile arguments, Term.vars]
  | .operation operator operands origin => by
      show profiled scope profile (Term.visitAll (profiler power) operands >>= _) = _
      simp [Term.visitAll_profiler profile operands, Term.vars]

theorem Term.visitAll_profiler (profile : Profile) : (terms : List Term) →
    profiled scope profile (Term.visitAll (profiler power) terms) =
      pure (terms, profile.meet scope (Term.varsOf terms))
  | [] => by simp [Term.visitAll, Term.varsOf]
  | term :: terms => by
      simp [Term.visitAll, Term.visit_profiler profile term,
        Term.visitAll_profiler _ terms, Term.varsOf]

end

/-- The variables of an optional bound. -/
def Guard.varsOf (guard : Option Guard) : List Variable := (guard.map Guard.vars).getD []

theorem Guard.visit_profiler (guard : Option Guard) :
    profiled scope profile (Guard.visit (profiler power) guard) =
      pure (guard, profile.meet scope (Guard.varsOf guard)) := by
  cases guard with
  | none => simp [Guard.visit, Guard.varsOf]
  | some guard => simp [Guard.visit, Term.visit_profiler, Guard.varsOf, Guard.vars]

@[simp] theorem Guard.varsOf_append_varsOf (left right : Option Guard) :
    Guard.varsOf left ++ Guard.varsOf right = guardVariables left right := rfl

mutual

theorem Literal.visit_profiler (scope : Scope) (profile : Profile) : (literal : Literal) →
    profiled scope profile (literal.visit (profiler power)) =
      pure (literal, profile.meet scope literal.atom.globals)
  | ⟨sign, atom, origin⟩ => by
      show profiled scope profile (atom.visit (profiler power) >>= _) = _
      simp [Atom.visit_profiler scope profile atom]

theorem Literal.visitAll_profiler (profile : Profile) : (literals : List Literal) →
    profiled .inner profile (Literal.visitAll (profiler power) literals) = pure (literals, profile)
  | [] => by simp [Literal.visitAll]
  | literal :: literals => by
      simp [Literal.visitAll, Literal.visit_profiler .inner profile literal,
        Literal.visitAll_profiler profile literals]

theorem Atom.visit_profiler (scope : Scope) (profile : Profile) : (atom : Atom Literal) →
    profiled scope profile (atom.visit (profiler power)) =
      pure (atom, profile.meet scope atom.globals)
  | .predicate term origin => by
      show profiled scope profile (term.visit (profiler power) >>= _) = _
      simp [Term.visit_profiler, Atom.globals]
  | .boolean value origin => by simp [Atom.visit, profiler, Atom.globals]
  | .comparison left relation right origin => by
      show profiled scope profile (left.visit (profiler power) >>= _) = _
      simp [Term.visit_profiler, Atom.globals]
  | .aggregate content => by
      show profiled scope profile (content.visit (profiler power) >>= _) = _
      simp [Aggregate.visit_profiler scope profile content, Atom.globals]
  | .bodyAggregate content => by
      show profiled scope profile (content.visit (profiler power) >>= _) = _
      simp [BodyAggregate.visit_profiler scope profile content, Atom.globals]

theorem Aggregate.visit_profiler (scope : Scope) (profile : Profile) :
    (aggregate : Aggregate Literal) →
    profiled scope profile (aggregate.visit (profiler power)) =
      pure (aggregate, profile.meet scope (guardVariables aggregate.left aggregate.right))
  | ⟨left, elements, right, origin⟩ => by
      show profiled scope profile (Guard.visit (profiler power) left >>= _) = _
      simp [Guard.visit_profiler, Conditional.visitAll_profiler _ _ elements]

theorem BodyAggregate.visit_profiler (scope : Scope) (profile : Profile) :
    (aggregate : BodyAggregate Literal) →
    profiled scope profile (aggregate.visit (profiler power)) =
      pure (aggregate, profile.meet scope (guardVariables aggregate.left aggregate.right))
  | ⟨function, left, elements, right, origin⟩ => by
      show profiled scope profile (Guard.visit (profiler power) left >>= _) = _
      simp [Guard.visit_profiler, Element.visitAll_profiler _ _ elements]

theorem Conditional.visit_profiler (scope : Scope) (profile : Profile) :
    (element : Conditional Literal) →
    profiled scope profile (element.visit (profiler power)) = pure (element, profile)
  | ⟨literal, condition, origin⟩ => by
      show profiled scope profile
        (withReader (fun _ => Scope.inner) (literal.visit (profiler power) >>= _)) = _
      simp [Literal.visit_profiler .inner profile literal,
        Literal.visitAll_profiler profile condition]

theorem Conditional.visitAll_profiler (scope : Scope) (profile : Profile) :
    (elements : List (Conditional Literal)) →
    profiled scope profile (Conditional.visitAll (profiler power) elements) =
      pure (elements, profile)
  | [] => by simp [Conditional.visitAll]
  | element :: elements => by
      simp [Conditional.visitAll, Conditional.visit_profiler scope profile element,
        Conditional.visitAll_profiler scope profile elements]

theorem Element.visit_profiler (scope : Scope) (profile : Profile) : (element : Element Literal) →
    profiled scope profile (element.visit (profiler power)) = pure (element, profile)
  | ⟨terms, condition⟩ => by
      show profiled scope profile
        (withReader (fun _ => Scope.inner) (Term.visitAll (profiler power) terms >>= _)) = _
      simp [Term.visitAll_profiler, Literal.visitAll_profiler profile condition]

theorem Element.visitAll_profiler (scope : Scope) (profile : Profile) :
    (elements : List (Element Literal)) →
    profiled scope profile (Element.visitAll (profiler power) elements) = pure (elements, profile)
  | [] => by simp [Element.visitAll]
  | element :: elements => by
      simp [Element.visitAll, Element.visit_profiler scope profile element,
        Element.visitAll_profiler scope profile elements]

end

end Visit

/-- What a theory atom is read as, and what it does to the profile. A weight is read only if there
is none yet. -/
inductive TheoryAtom.Read (power : Int) (remark : TheoryAtom) (profile : Profile) :
    Reading → Profile → Prop
  | treatment {treatment : Treatment} (named : Treatment.ofName? remark.name = some treatment)
      (other : treatment ≠ .evidence) :
      Read power remark profile (.keep remark) { profile with treatment := some treatment }
  | evidence {literal : Literal} (named : Treatment.ofName? remark.name = some .evidence)
      (stated : evidenceLiteral remark = .ok literal) :
      Read power remark profile (.replace literal)
        { profile with treatment := some .evidence, evidence := some literal }
  | weight {formula : WeightFormula} {argument : Term} {weight : Weight}
      (unnamed : Treatment.ofName? remark.name = none)
      (named : WeightFormula.ofName? remark.name = some formula)
      (single : remark.arguments = [argument]) (first : profile.weight = .hard)
      (computed : Weight.ofFormula formula argument power = .ok weight) :
      Read power remark profile (.replace { Literal.boolean true with origin := remark.origin })
        { profile with weight := .soft weight }

section Read

variable {power : Int} {scope : Scope} {profile after : Profile} {remark : TheoryAtom}
  {reading : Reading}

theorem readTreatment_ok {treatment : Treatment}
    (named : Treatment.ofName? remark.name = some treatment)
    (read : (profiled scope profile (readTreatment treatment remark)).result =
      .ok (reading, after)) :
    remark.Read power profile reading after := by
  by_cases isEvidence : treatment = .evidence
  · subst isEvidence
    cases stated : evidenceLiteral remark with
    | error fault => simp [readTreatment, stated] at read
    | ok literal =>
        simp only [readTreatment, stated] at read
        cases read
        exact .evidence named stated
  · cases treatment with
    | evidence => exact absurd rfl isEvidence
    | _ =>
        cases read
        exact .treatment named isEvidence

theorem readWeight_ok {formula : WeightFormula} {argument : Term}
    (unnamed : Treatment.ofName? remark.name = none)
    (named : WeightFormula.ofName? remark.name = some formula)
    (single : remark.arguments = [argument])
    (read : (profiled scope profile (readWeight power formula argument remark.origin)).result =
      .ok (reading, after)) :
    remark.Read power profile reading after := by
  cases first : profile.weight with
  | soft weight => simp [readWeight, first, RuleWeight.isHard] at read
  | hard =>
      cases computed : Weight.ofFormula formula argument power with
      | error error => simp [readWeight, first, RuleWeight.isHard, computed] at read
      | ok weight =>
          simp only [readWeight, profiled_bind, profiled_get, pure_bind, first, RuleWeight.isHard,
            Bool.not_true, Bool.false_eq_true, if_false, computed] at read
          cases read
          exact .weight unnamed named single first computed

theorem readTheoryAtom_ok
    (read : (profiled scope profile (readTheoryAtom power remark)).result = .ok (reading, after)) :
    remark.Read power profile reading after := by
  unfold readTheoryAtom at read
  split at read
  · next named => exact readTreatment_ok named read
  · next formula argument unnamed named single => exact readWeight_ok unnamed named single read
  · simp at read

end Read

/-- What becomes of a body element and of the profile. -/
inductive BodyElement.Profiled (power : Int) (profile : Profile) :
    BodyElement → BodyElement → Profile → Prop
  | literal (content : Literal) :
      Profiled power profile (.literal content) (.literal content)
        (profile.meet .outer content.atom.globals)
  | conditional (content : Conditional Literal) :
      Profiled power profile (.conditional content) (.conditional content) profile
  | theory {remark : TheoryAtom} {reading : Reading} {after : Profile}
      (read : remark.Read power profile reading after) :
      Profiled power profile (.theory remark) reading.toBodyElement after

/-- What becomes of a body, element after element. -/
inductive BodyElement.ProfiledAll (power : Int) :
    Profile → List BodyElement → List BodyElement → Profile → Prop
  | nil (profile : Profile) : ProfiledAll power profile [] [] profile
  | cons {profile middle after : Profile} {element element' : BodyElement}
      {body body' : List BodyElement}
      (first : element.Profiled power profile element' middle)
      (others : ProfiledAll power middle body body' after) :
      ProfiledAll power profile (element :: body) (element' :: body') after

/-- What becomes of the head. A weight in the head is refused. -/
inductive Head.Profiled (power : Int) (profile : Profile) : Head → Head → Profile → Prop
  | literal (content : Literal) :
      Profiled power profile (.literal content) (.literal content)
        (profile.meet .outer content.atom.globals)
  | aggregate (content : Aggregate Literal) :
      Profiled power profile (.aggregate content) (.aggregate content)
        (profile.meet .outer (guardVariables content.left content.right))
  | theory {remark : TheoryAtom} {reading : Reading} {after : Profile}
      (treated : WeightFormula.ofName? remark.name = none)
      (read : remark.Read power profile reading after) :
      Profiled power profile (.theory remark) reading.toHead after

section Steps

variable (power : Int) (profile : Profile)

theorem BodyElement.visit_profiler_literal (content : Literal) :
    profiled .outer profile (BodyElement.visit (profiler power) (.literal content)) =
      pure (.literal content, profile.meet .outer content.atom.globals) := by
  show profiled .outer profile (content.visit (profiler power) >>= _) = _
  simp only [profiled_bind, Literal.visit_profiler, pure_bind, profiled_pure]

theorem BodyElement.visit_profiler_conditional (content : Conditional Literal) :
    profiled .outer profile (BodyElement.visit (profiler power) (.conditional content)) =
      pure (.conditional content, profile) := by
  show profiled .outer profile (content.visit (profiler power) >>= _) = _
  simp only [profiled_bind, Conditional.visit_profiler, pure_bind, profiled_pure]

theorem BodyElement.visit_profiler_theory (remark : TheoryAtom) :
    profiled .outer profile (BodyElement.visit (profiler power) (.theory remark)) =
      profiled .outer profile (readTheoryAtom power remark) >>= fun (reading, after) =>
        pure (reading.toBodyElement, after) := rfl

theorem BodyElement.visitAll_profiler (element : BodyElement) (body : List BodyElement) :
    profiled .outer profile (BodyElement.visitAll (profiler power) (element :: body)) =
      profiled .outer profile (element.visit (profiler power)) >>= fun (element, middle) =>
        profiled .outer middle (BodyElement.visitAll (profiler power) body) >>=
          fun (body, after) => pure (element :: body, after) := rfl

theorem Head.visit_profiler_literal (content : Literal) :
    profiled .outer profile (Head.visit (profiler power) (.literal content)) =
      pure (.literal content, profile.meet .outer content.atom.globals) := by
  show profiled .outer profile (content.visit (profiler power) >>= _) = _
  simp only [profiled_bind, Literal.visit_profiler, pure_bind, profiled_pure]

theorem Head.visit_profiler_aggregate (content : Aggregate Literal) :
    profiled .outer profile (Head.visit (profiler power) (.aggregate content)) =
      pure (.aggregate content,
        profile.meet .outer (guardVariables content.left content.right)) := by
  show profiled .outer profile (content.visit (profiler power) >>= _) = _
  simp only [profiled_bind, Aggregate.visit_profiler, pure_bind, profiled_pure]

/-- A weight in the head is refused before it is looked into. -/
theorem Head.visit_profiler_theory (remark : TheoryAtom) :
    profiled .outer profile (Head.visit (profiler power) (.theory remark)) =
      if (WeightFormula.ofName? remark.name).isSome then
        .fail (.annotationHead remark.name) remark.origin
      else profiled .outer profile (readTheoryAtom power remark) >>= fun (reading, after) =>
        pure (reading.toHead, after) := by
  show profiled .outer profile (readTheoryHead power remark) = _
  unfold readTheoryHead
  cases (WeightFormula.ofName? remark.name).isSome <;> rfl

theorem Rule.profile_eq (rule : Rule) :
    rule.profile power =
      profiled .outer {} (rule.head.visit (profiler power)) >>= fun (head, middle) =>
        profiled .outer middle (BodyElement.visitAll (profiler power) rule.body) >>=
          fun (body, profile) => pure { head, body, profile } := by
  change profiled .outer {} (do
    let head ← rule.head.visit (profiler power)
    let body ← BodyElement.visitAll (profiler power) rule.body
    return (head, body)) >>= _ = _
  simp only [profiled_bind, profiled_pure, bind_assoc, pure_bind]

end Steps

section Rule

variable {power : Int} {profile after : Profile}

theorem BodyElement.visit_ok {element element' : BodyElement}
    (visited : (profiled .outer profile (element.visit (profiler power))).result =
      .ok (element', after)) :
    element.Profiled power profile element' after := by
  cases element with
  | literal content =>
      rw [BodyElement.visit_profiler_literal] at visited
      cases visited
      exact .literal content
  | conditional content =>
      rw [BodyElement.visit_profiler_conditional] at visited
      cases visited
      exact .conditional content
  | theory remark =>
      rw [BodyElement.visit_profiler_theory, Logged.result_bind_eq_ok] at visited
      obtain ⟨⟨reading, middle⟩, read, rebuilt⟩ := visited
      cases rebuilt
      exact .theory (readTheoryAtom_ok read)

theorem BodyElement.visitAll_ok {body body' : List BodyElement}
    (visited : (profiled .outer profile (BodyElement.visitAll (profiler power) body)).result =
      .ok (body', after)) :
    BodyElement.ProfiledAll power profile body body' after := by
  induction body generalizing profile body' with
  | nil =>
      cases visited
      exact .nil _
  | cons element body inductionHypothesis =>
      simp only [BodyElement.visitAll_profiler, Logged.result_bind_eq_ok] at visited
      obtain ⟨⟨element', middle⟩, first, ⟨others', last⟩, others, rebuilt⟩ := visited
      cases rebuilt
      exact .cons (BodyElement.visit_ok first) (inductionHypothesis others)

theorem Head.visit_ok {head head' : Head}
    (visited : (profiled .outer profile (head.visit (profiler power))).result =
      .ok (head', after)) :
    head.Profiled power profile head' after := by
  cases head with
  | literal content =>
      rw [Head.visit_profiler_literal] at visited
      cases visited
      exact .literal content
  | aggregate content =>
      rw [Head.visit_profiler_aggregate] at visited
      cases visited
      exact .aggregate content
  | theory remark =>
      rw [Head.visit_profiler_theory] at visited
      cases treated : WeightFormula.ofName? remark.name with
      | some formula => simp [treated] at visited
      | none =>
          simp only [treated, Option.isSome_none, Bool.false_eq_true, if_false,
            Logged.result_bind_eq_ok] at visited
          obtain ⟨⟨reading, middle⟩, read, rebuilt⟩ := visited
          cases rebuilt
          exact .theory treated (readTheoryAtom_ok read)

/-- The profile of a rule is the one that its head and then its body lead to. -/
theorem Rule.profile_ok {rule : Rule} {profiled : ProfiledRule}
    (ok : (rule.profile power).result = .ok profiled) :
    ∃ middle, rule.head.Profiled power {} profiled.head middle ∧
      BodyElement.ProfiledAll power middle rule.body profiled.body profiled.profile := by
  rw [Rule.profile_eq, Logged.result_bind_eq_ok] at ok
  obtain ⟨⟨head, middle⟩, headVisited, ok⟩ := ok
  rw [Logged.result_bind_eq_ok] at ok
  obtain ⟨⟨body, profile⟩, bodyVisited, rebuilt⟩ := ok
  cases rebuilt
  exact ⟨middle, Head.visit_ok headVisited, BodyElement.visitAll_ok bodyVisited⟩

end Rule

end SoftRules
