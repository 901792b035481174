import SoftRules.Proofs.Encoding.Profile
import SoftRules.Proofs.Language.Erasure
import SoftRules.Encoding.Penalty

/-!
Origins do not matter to what a rule is read as and encoded as. Each step can be taken before or
after the origins are erased, with the same outcome up to origins and the same log.
-/

set_option autoImplicit false

namespace SoftRules

/-! ### Computations -/

def EncodingError.erase (error : EncodingError) : EncodingError := { error with origin := none }

namespace Logged

variable {α β γ δ : Type}

/-- What a computation comes to once origins are erased, those of its value by `change`. -/
def erase (change : α → β) (step : Logged α) : Logged β :=
  ⟨(step.result.map change).mapError EncodingError.erase, step.log⟩

@[simp] theorem erase_pure (change : α → β) (value : α) :
    (pure value : Logged α).erase change = pure (change value) := rfl

@[simp] theorem erase_fail (change : α → β) (cause : EncodingError.Cause) (origin : Origin) :
    (fail cause origin : Logged α).erase change = fail cause none := rfl

/-- Steps that agree up to origins can be chained. -/
theorem bind_erase {first : α → γ} {second : β → δ} {step : Logged α} {step' : Logged γ}
    {next : α → Logged β} {next' : γ → Logged δ} (agrees : step' = step.erase first)
    (others : ∀ value, next' (first value) = (next value).erase second) :
    step' >>= next' = (step >>= next).erase second := by
  subst agrees
  obtain ⟨result, log⟩ := step
  cases result with
  | error error => rfl
  | ok value =>
      show (⟨(next' (first value)).result, log ++ (next' (first value)).log⟩ : Logged δ) = _
      rw [others]
      rfl

theorem erase_write (level : Level) (message : String) :
    (write level message).erase id = write level message := rfl

theorem write_bind_erase {second : β → δ} (level : Level) (message : String)
    {next : Unit → Logged β} {next' : Unit → Logged δ}
    (others : next' () = (next ()).erase second) :
    write level message >>= next' = (write level message >>= next).erase second :=
  bind_erase (erase_write level message).symm fun _ => others

theorem erase_result_eq_ok {change : α → β} {step : Logged α} {value : α}
    (ok : step.result = .ok value) : (step.erase change).result = .ok (change value) := by
  rw [erase, ok]
  rfl

theorem erase_result_eq_error {change : α → β} {step : Logged α} {error : EncodingError}
    (failed : step.result = .error error) :
    (step.erase change).result = .error error.erase := by
  rw [erase, failed]
  rfl

end Logged

/-! ### Profiles -/

def Profile.erase (profile : Profile) : Profile where
  weight := profile.weight
  treatment := profile.treatment
  evidence := profile.evidence.map Literal.erase
  globals := profile.globals.map Variable.erase

def Reading.erase : Reading → Reading
  | keep atom => keep atom.erase
  | replace literal => replace literal.erase

def ProfiledRule.erase (rule : ProfiledRule) : ProfiledRule where
  head := rule.head.erase
  body := rule.body.map BodyElement.erase
  profile := rule.profile.erase

theorem Reading.toHead_erase (reading : Reading) : reading.erase.toHead = reading.toHead.erase := by
  cases reading <;> rfl

theorem Reading.toBodyElement_erase (reading : Reading) :
    reading.erase.toBodyElement = reading.toBodyElement.erase := by
  cases reading <;> rfl

theorem Atom.globals_erase (atom : Atom Literal) :
    atom.erase.globals = atom.globals.map Variable.erase := by
  cases atom with
  | predicate term origin => exact term.vars_erase
  | boolean value origin => rfl
  | comparison left relation right origin =>
      simp [Atom.erase, Atom.globals, Term.vars_erase]
  | aggregate content =>
      obtain ⟨left, elements, right, origin⟩ := content
      exact guardVariables_erase left right
  | bodyAggregate content =>
      obtain ⟨function, left, elements, right, origin⟩ := content
      exact guardVariables_erase left right

theorem addVariable_erase (known : List Variable) (x : Variable) :
    addVariable (known.map Variable.erase) x.erase = (addVariable known x).map Variable.erase := by
  have isKnown : (known.map Variable.erase).any (·.name == x.erase.name) =
      known.any (·.name == x.name) := by
    rw [List.any_map]
    rfl
  have isAnonymous : x.erase.isAnonymous = x.isAnonymous := rfl
  rw [addVariable, addVariable, isKnown, isAnonymous, apply_ite (List.map Variable.erase),
    List.map_append]
  rfl

theorem foldl_addVariable_erase (known met : List Variable) :
    (met.map Variable.erase).foldl addVariable (known.map Variable.erase) =
      (met.foldl addVariable known).map Variable.erase := by
  induction met generalizing known with
  | nil => rfl
  | cons x met inductionHypothesis =>
      rw [List.map_cons, List.foldl_cons, List.foldl_cons, addVariable_erase, inductionHypothesis]

theorem Profile.meet_erase (profile : Profile) (met : List Variable) :
    profile.erase.meet .outer (met.map Variable.erase) = (profile.meet .outer met).erase := by
  simp only [Profile.meet, Profile.erase, foldl_addVariable_erase]

theorem evidenceLiteral_erase (remark : TheoryAtom) :
    evidenceLiteral remark.erase = (evidenceLiteral remark).map Literal.erase := by
  have literal (atom : Term) (value : Option String) :
      evidenceLiteral.literal remark.erase atom.erase value =
        (evidenceLiteral.literal remark atom value).map Literal.erase := by
    unfold evidenceLiteral.literal
    rw [atom.isAtom_erase]
    cases atom.isAtom <;> rfl
  obtain ⟨name, arguments, elements, guard, origin⟩ := remark
  match arguments with
  | [] => rfl
  | [atom] => exact literal atom none
  | [atom, value] =>
      show evidenceLiteral.literal _ atom.erase value.erase.constant? = _
      rw [value.constant?_erase]
      exact literal atom value.constant?
  | _ :: _ :: _ :: _ => rfl

theorem Weight.ofFormula_erase (formula : WeightFormula) (argument : Term) (power : Int) :
    Weight.ofFormula formula argument.erase power = Weight.ofFormula formula argument power := by
  have value : Weight.argumentValue argument.erase = Weight.argumentValue argument := by
    rw [Weight.argumentValue, Weight.argumentValue, argument.symbol?_erase, argument.render_erase]
  rw [Weight.ofFormula, Weight.ofFormula, value]

section Profiling

variable (power : Int) (profile : Profile)

theorem readTreatment_erase (treatment : Treatment) (remark : TheoryAtom) :
    profiled .outer profile.erase (readTreatment treatment remark.erase) =
      (profiled .outer profile (readTreatment treatment remark)).erase
        (Prod.map Reading.erase Profile.erase) := by
  cases treatment with
  | evidence =>
      unfold readTreatment
      rw [evidenceLiteral_erase]
      cases evidenceLiteral remark <;> rfl
  | _ => rfl

theorem readWeight_erase (formula : WeightFormula) (argument : Term) (origin : Origin) :
    profiled .outer profile.erase (readWeight power formula argument.erase none) =
      (profiled .outer profile (readWeight power formula argument origin)).erase
        (Prod.map Reading.erase Profile.erase) := by
  obtain ⟨weight, treatment, evidence, globals⟩ := profile
  unfold readWeight
  rw [Weight.ofFormula_erase]
  cases weight with
  | soft weight => rfl
  | hard => cases Weight.ofFormula formula argument power <;> rfl

theorem readTheoryAtom_erase (remark : TheoryAtom) :
    profiled .outer profile.erase (readTheoryAtom power remark.erase) =
      (profiled .outer profile (readTheoryAtom power remark)).erase
        (Prod.map Reading.erase Profile.erase) := by
  have treated := fun treatment => readTreatment_erase profile treatment remark
  obtain ⟨name, arguments, elements, guard, origin⟩ := remark
  unfold readTheoryAtom
  simp only [TheoryAtom.erase, Term.length_eraseAll]
  cases Treatment.ofName? name with
  | some treatment => exact treated treatment
  | none =>
      cases WeightFormula.ofName? name with
      | none => rfl
      | some formula =>
          -- Only a single argument is read as a weight.
          cases arguments with
          | nil => rfl
          | cons argument others =>
              cases others with
              | nil => exact readWeight_erase power profile formula argument origin
              | cons _ _ => rfl

theorem BodyElement.visit_erase (element : BodyElement) :
    profiled .outer profile.erase (element.erase.visit (profiler power)) =
      (profiled .outer profile (element.visit (profiler power))).erase
        (Prod.map BodyElement.erase Profile.erase) := by
  cases element with
  | literal content =>
      obtain ⟨sign, atom, origin⟩ := content
      rw [BodyElement.erase, visit_profiler_literal, visit_profiler_literal, Logged.erase_pure,
        Prod.map_apply, ← Profile.meet_erase, ← Atom.globals_erase]
      rfl
  | conditional content =>
      rw [BodyElement.erase, visit_profiler_conditional, visit_profiler_conditional]
      rfl
  | theory remark =>
      rw [BodyElement.erase, visit_profiler_theory, visit_profiler_theory]
      apply Logged.bind_erase (readTheoryAtom_erase power profile remark)
      rintro ⟨reading, after⟩
      simp only [Prod.map_apply, Reading.toBodyElement_erase, Logged.erase_pure]

theorem BodyElement.visitAll_erase (body : List BodyElement) :
    profiled .outer profile.erase
        (BodyElement.visitAll (profiler power) (body.map BodyElement.erase)) =
      (profiled .outer profile (BodyElement.visitAll (profiler power) body)).erase
        (Prod.map (List.map BodyElement.erase) Profile.erase) := by
  induction body generalizing profile with
  | nil => rfl
  | cons element body inductionHypothesis =>
      rw [List.map_cons, visitAll_profiler, visitAll_profiler]
      apply Logged.bind_erase (element.visit_erase power profile)
      rintro ⟨element, middle⟩
      apply Logged.bind_erase (inductionHypothesis middle)
      rintro ⟨body, after⟩
      rfl

theorem Head.visit_erase (head : Head) :
    profiled .outer profile.erase (head.erase.visit (profiler power)) =
      (profiled .outer profile (head.visit (profiler power))).erase
        (Prod.map Head.erase Profile.erase) := by
  cases head with
  | literal content =>
      obtain ⟨sign, atom, origin⟩ := content
      rw [Head.erase, visit_profiler_literal, visit_profiler_literal, Logged.erase_pure,
        Prod.map_apply, ← Profile.meet_erase, ← Atom.globals_erase]
      rfl
  | aggregate content =>
      obtain ⟨left, elements, right, origin⟩ := content
      rw [Head.erase, visit_profiler_aggregate, visit_profiler_aggregate, Logged.erase_pure,
        Prod.map_apply, ← Profile.meet_erase, ← guardVariables_erase]
      rfl
  | theory remark =>
      rw [Head.erase, visit_profiler_theory, visit_profiler_theory]
      show (if (WeightFormula.ofName? remark.name).isSome then _ else _) = _
      split
      · rfl
      · apply Logged.bind_erase (readTheoryAtom_erase power profile remark)
        rintro ⟨reading, after⟩
        simp only [Prod.map_apply, Reading.toHead_erase, Logged.erase_pure]

/-- The profile of a rule does not depend on the origins of its parts. -/
theorem Rule.profile_erase (rule : Rule) :
    rule.erase.profile power = (rule.profile power).erase ProfiledRule.erase := by
  rw [Rule.profile_eq, Rule.profile_eq]
  apply Logged.bind_erase (rule.head.visit_erase power {})
  rintro ⟨head, middle⟩
  apply Logged.bind_erase (BodyElement.visitAll_erase power middle rule.body)
  rintro ⟨body, profile⟩
  rfl

end Profiling

/-! ### Penalties -/

def Penalty.erase (penalty : Penalty) : Penalty where
  index := penalty.index.erase
  globals := penalty.globals.erase
  mark := penalty.mark.erase
  weight := penalty.weight.erase
  priority := penalty.priority

theorem Term.tuple_vars_erase (globals : List Variable) :
    Term.tuple ((globals.map Variable.erase).map .var) =
      (Term.tuple (globals.map .var)).erase := by
  simp [Term.tuple, Term.erase, Term.eraseAll_eq]

theorem Penalty.ofProfile_erase (index : Nat) (profile : Profile) :
    Penalty.ofProfile index profile.erase = (Penalty.ofProfile index profile).erase := by
  obtain ⟨weight, treatment, evidence, globals⟩ := profile
  have tuple := Term.tuple_vars_erase globals
  cases weight <;> simp only [Penalty.ofProfile, Profile.erase, tuple] <;> rfl

theorem Head.negation?_erase (head : Head) :
    head.erase.negation? = head.negation?.map Literal.erase := by
  cases head with
  | literal content =>
      obtain ⟨sign, atom, origin⟩ := content
      rfl
  | aggregate content =>
      obtain ⟨left, elements, right, origin⟩ := content
      cases left <;> cases right <;> rfl
  | theory content => rfl

theorem Head.choice?_erase (head : Head) :
    head.erase.choice? = head.choice?.map Aggregate.erase := by
  cases head with
  | literal content =>
      have isFalse : content.erase.atom.isFalse = content.atom.isFalse :=
        (Head.literal content).isFalse_erase
      rw [Head.erase, Head.choice?, Head.choice?, isFalse]
      obtain ⟨sign, atom, origin⟩ := content
      cases atom.isFalse <;> rfl
  | aggregate content =>
      obtain ⟨left, elements, right, origin⟩ := content
      rfl
  | theory content => rfl

theorem Literal.origin_erase (literal : Literal) : literal.erase.origin = none := by
  obtain ⟨sign, atom, origin⟩ := literal
  rfl

theorem Head.origin_erase (head : Head) : head.erase.origin = none := by
  cases head with
  | literal content => exact content.origin_erase
  | aggregate content =>
      obtain ⟨left, elements, right, origin⟩ := content
      rfl
  | theory content => rfl

theorem markedEncoding_erase (penalty : Penalty) (origin : Origin) (head : Head)
    (notHead : Literal) (body : List BodyElement) :
    markedEncoding penalty.erase none head.erase notHead.erase (body.map BodyElement.erase) =
      (markedEncoding penalty origin head notHead body).map Statement.erase := by
  rw [markedEncoding, notHead.origin_erase]
  rfl

theorem choiceEncoding_erase (mode : Mode) (penalty : Penalty) (origin : Origin) (head : Head)
    (notHead : Literal) (body : List BodyElement) :
    choiceEncoding mode penalty.erase none head.erase notHead.erase
        (body.map BodyElement.erase) =
      (choiceEncoding mode penalty origin head notHead body).map Statement.erase := by
  have priority : penalty.erase.priority = penalty.priority := rfl
  rw [choiceEncoding, choiceEncoding, Head.choice?_erase, Head.origin_erase, priority]
  cases head.choice? with
  | none => cases mode.switchPenalties && penalty.priority == 0 <;> rfl
  | some choice => cases mode.switchPenalties && penalty.priority == 0 <;> rfl

theorem encodeRule_eq_of_plain {mode : Mode} {index : Nat} {origin : Origin} {rule : ProfiledRule}
    (plain : rule.head.isTheory = false) :
    encodeRule mode index origin rule =
      let penalty := Penalty.ofProfile index rule.profile
      let note (message : String) :=
        Logged.write .debug ("rule " ++ toString index ++ ": " ++ message)
      match rule.head.negation? with
      | none => do
          note "choice without bounds is kept"
          return [.rule { head := rule.head, body := rule.body, origin }]
      | some notHead =>
          if mode.markViolations then do
            note ("encoding " ++ rule.head.kind.name ++ " head with unsat atom")
            return markedEncoding penalty origin rule.head notHead rule.body
          else do
            let statements := choiceEncoding mode penalty origin rule.head notHead rule.body
            note ("encoding with " ++ toString (statements.length - 1) ++
              " choice rule(s) and a weak constraint")
            return statements := by
  obtain ⟨head, body, profile⟩ := rule
  cases head with
  | literal content => rfl
  | aggregate content =>
      cases guarded : content.isGuarded <;> simp [encodeRule, Head.negation?, guarded]
  | theory remark => cases plain

theorem encodeRule_erase (mode : Mode) (index : Nat) (origin : Origin) (rule : ProfiledRule) :
    encodeRule mode index none rule.erase =
      (encodeRule mode index origin rule).erase (List.map Statement.erase) := by
  cases isTheory : rule.head.isTheory with
  | true =>
      obtain ⟨head, body, profile⟩ := rule
      cases head with
      | theory remark => rfl
      | literal content => cases isTheory
      | aggregate content => cases isTheory
  | false =>
      have isTheory' : rule.erase.head.isTheory = false :=
        rule.head.isTheory_erase.trans isTheory
      have negation : rule.erase.head.negation? = rule.head.negation?.map Literal.erase :=
        rule.head.negation?_erase
      have penalty : Penalty.ofProfile index rule.erase.profile =
          (Penalty.ofProfile index rule.profile).erase :=
        Penalty.ofProfile_erase index rule.profile
      have kind : rule.erase.head.kind = rule.head.kind := rule.head.kind_erase
      rw [encodeRule_eq_of_plain isTheory, encodeRule_eq_of_plain isTheory', negation, penalty,
        kind]
      cases rule.head.negation? with
      | none => rfl
      | some notHead =>
          have marked := markedEncoding_erase (Penalty.ofProfile index rule.profile) origin
            rule.head notHead rule.body
          have chosen := choiceEncoding_erase mode (Penalty.ofProfile index rule.profile) origin
            rule.head notHead rule.body
          simp only [Option.map_some, ProfiledRule.erase, marked, chosen, List.length_map]
          cases mode.markViolations <;> rfl

end SoftRules
