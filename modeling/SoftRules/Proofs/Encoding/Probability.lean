import SoftRules.Proofs.Encoding.Refusals

/-!
The probabilities that are accepted.

A probability is stated by an integer or by a string that reads as a number. It is accepted if it is
positive, its scaled logarithm fits, and each element of the annotation is an atom. It may be
greater than one, as the logarithm is defined there, too. All other annotations are malformed.
-/

set_option autoImplicit false

namespace SoftRules

/-- The number that a term denotes: that of an integer, or the one that a string reads as. -/
inductive Term.DenotesNumber : Term → Float → Prop
  | integer (value : Int) (origin : Origin) :
      DenotesNumber (.symbol (.number value) origin) (Number.ofInteger value)
  | text {spelling : String} {value : Float} (read : Number.read? spelling = some value)
      (origin : Origin) : DenotesNumber (.symbol (.text spelling) origin) value

/-- A named function term, or the classical negation of one. -/
inductive Term.DenotesAtom : Term → Prop
  | plain {name : String} (named : name ≠ "") (arguments : List Term) (origin : Origin) :
      DenotesAtom (.function name arguments origin)
  | negated {name : String} (named : name ≠ "") (arguments : List Term) (inner origin : Origin) :
      DenotesAtom (.operation .negation [.function name arguments inner] origin)

namespace TheoryAtom

/-- The guard of the annotation equates it with a number. -/
def States (remark : TheoryAtom) (value : Float) : Prop :=
  ∃ term, remark.guard = some ⟨.equal, term⟩ ∧ term.DenotesNumber value

/-- There are elements, and each of them is a single atom. -/
def HasAtoms (remark : TheoryAtom) : Prop :=
  remark.elements ≠ [] ∧
    ∀ element ∈ remark.elements, ∃ atom : Term, element.terms = [atom] ∧ atom.DenotesAtom

/-- The annotation gives a probability to its atoms. -/
def IsProbability (remark : TheoryAtom) : Prop :=
  (∃ value, remark.States value ∧ 0 < value ∧ value ≤ 1) ∧ remark.HasAtoms

end TheoryAtom

theorem Term.isNamedFunction_iff {term : Term} : term.isNamedFunction = true ↔
    ∃ name arguments origin, name ≠ "" ∧ term = .function name arguments origin := by
  cases term <;> simp [Term.isNamedFunction]

theorem Term.isAtom_iff {term : Term} : term.isAtom = true ↔ term.DenotesAtom := by
  constructor
  · intro isAtom
    unfold Term.isAtom at isAtom
    split at isAtom
    · obtain ⟨name, arguments, inner, named, rfl⟩ := Term.isNamedFunction_iff.mp isAtom
      exact .negated named arguments inner _
    · obtain ⟨name, arguments, origin, named, rfl⟩ := Term.isNamedFunction_iff.mp isAtom
      exact .plain named arguments origin
  · rintro (⟨named⟩ | ⟨named⟩)
    · simp [Term.isAtom, Term.isNamedFunction, named]
    · simp [Term.isAtom, Term.isNamedFunction, named]

namespace Weight

theorem argumentValue_eq_ok_iff {term : Term} {value : Float} :
    argumentValue term = .ok value ↔ term.DenotesNumber value := by
  constructor
  · intro isValue
    cases term with
    | symbol content origin =>
        cases content with
        | number value =>
            cases isValue
            exact .integer value origin
        | text spelling =>
            cases read : Number.read? spelling with
            | none => simp [argumentValue, Term.symbol?, read] at isValue
            | some number =>
                simp only [argumentValue, Term.symbol?, read, Except.ok.injEq] at isValue
                exact .text (isValue ▸ read) origin
    | _ => cases isValue
  · rintro (⟨value, origin⟩ | ⟨read, origin⟩)
    · rfl
    · simp [argumentValue, Term.symbol?, read]

/-- The logarithm is computed for positive numbers, and it must not be too large. -/
theorem ofFormula_log_ok_iff {term : Term} {power : Int} {weight : Weight} :
    ofFormula .log term power = .ok weight ↔
      ∃ value, term.DenotesNumber value ∧ 0 < value ∧
        scale? (Number.log value) power = some weight := by
  simp only [← argumentValue_eq_ok_iff, ofFormula, bind, Except.bind]
  cases argumentValue term with
  | error error => simp
  | ok value =>
      by_cases positive : 0 < value
      · cases scaled : scale? (Number.log value) power with
        | none => simp [WeightFormula.value?, positive, scaled]
        | some other => simp [WeightFormula.value?, positive, scaled]
      · simp [WeightFormula.value?, positive]

end Weight

namespace Plog

variable {remark : TheoryAtom}

theorem statedProbability_ok_iff {term : Term} :
    (statedProbability remark).result = .ok term ↔ remark.guard = some ⟨.equal, term⟩ := by
  unfold statedProbability
  split
  · next stated isGuard => simp [isGuard]
  · next other =>
      constructor
      · intro ok
        cases ok
      · intro isGuard
        exact absurd isGuard (other term)

theorem elementAtom_ok_iff {element : Element Literal} {atom : Term} :
    (elementAtom remark element).result = .ok atom ↔
      element.terms = [atom] ∧ atom.DenotesAtom := by
  rw [← Term.isAtom_iff]
  constructor
  · exact elementAtom_ok
  · rintro ⟨single, isAtom⟩
    simp [elementAtom, single, isAtom]

theorem exists_makes_iff {α : Type} {make : Element Literal → Term → α}
    {elements : List (Element Literal)} :
    (∃ values, List.Forall₂ (Makes remark make) elements values) ↔
      ∀ element ∈ elements, ∃ atom : Term, element.terms = [atom] ∧ atom.DenotesAtom := by
  constructor
  · rintro ⟨values, along⟩ element member
    obtain ⟨value, -, atom, isAtom, -⟩ := exists_of_forall₂ along.flip element member
    exact ⟨atom, elementAtom_ok_iff.mp isAtom⟩
  · intro atoms
    induction elements with
    | nil => exact ⟨[], .nil⟩
    | cons element elements inductionHypothesis =>
        obtain ⟨first, others⟩ := List.forall_mem_cons.mp atoms
        obtain ⟨atom, isAtom⟩ := first
        obtain ⟨values, along⟩ := inductionHypothesis others
        exact ⟨_, .cons ⟨atom, elementAtom_ok_iff.mpr isAtom, rfl⟩ along⟩

variable {power : Int} {body : List BodyElement}

theorem malformed_of_probability {error : EncodingError}
    (failed : (probability power remark body).result = .error error) :
    Malformed remark error :=
  (fails_probability remark body power error failed).malformed

theorem exists_probability_iff :
    (∃ statements, (probability power remark body).result = .ok statements) ↔
      (∃ value, remark.States value ∧ 0 < value ∧
        (Weight.scale? (Number.log value) power).isSome = true) ∧ remark.HasAtoms := by
  simp only [probability_ok_iff, statedProbability_ok_iff, Weight.ofFormula_log_ok_iff,
    TheoryAtom.States, TheoryAtom.HasAtoms]
  constructor
  · rintro ⟨statements, term, weight, isGuard, ⟨value, denotes, positive, scaled⟩, nonempty, along⟩
    exact ⟨⟨value, ⟨term, isGuard, denotes⟩, positive, by simp [scaled]⟩, nonempty,
      exists_makes_iff.mp ⟨statements, along⟩⟩
  · rintro ⟨⟨value, ⟨term, isGuard, denotes⟩, positive, scaled⟩, nonempty, atoms⟩
    obtain ⟨weight, scaled⟩ := Option.isSome_iff_exists.mp scaled
    obtain ⟨statements, along⟩ := exists_makes_iff.mpr atoms
    exact ⟨statements, term, weight, isGuard, ⟨value, denotes, positive, scaled⟩, nonempty, along⟩

end Plog

theorem TheoryAtom.States.unique {remark : TheoryAtom} {value other : Float}
    (states : remark.States value) (statesOther : remark.States other) : value = other := by
  obtain ⟨term, isGuard, denotes⟩ := states
  obtain ⟨_, sameGuard, denotesOther⟩ := statesOther
  cases isGuard.symm.trans sameGuard
  rw [← Weight.argumentValue_eq_ok_iff] at denotes denotesOther
  exact Except.ok.inj (denotes.symm.trans denotesOther)

/-- An annotation is accepted exactly if it states a positive number whose logarithm fits after
scaling, and has atoms as its elements. It then gives a probability to its atoms exactly if the
number is at most one. All other annotations are malformed. -/
theorem Plog.probability_accepted_iff (power : Int) (remark : TheoryAtom)
    (body : List BodyElement) :
    ((∃ statements, (probability power remark body).result = .ok statements) ↔
      (∃ value, remark.States value ∧ 0 < value ∧
        (Weight.scale? (Number.log value) power).isSome = true) ∧ remark.HasAtoms) ∧
    (∀ statements, (probability power remark body).result = .ok statements →
      (remark.IsProbability ↔ ∀ value, remark.States value → value ≤ 1)) ∧
    ∀ error, (probability power remark body).result = .error error →
      ∃ fault, error = ⟨.plog fault, remark.origin⟩ := by
  refine ⟨exists_probability_iff, ?_, fun error failed => malformed_of_probability failed⟩
  intro statements ok
  obtain ⟨⟨value, states, positive, -⟩, atoms⟩ := exists_probability_iff.mp ⟨statements, ok⟩
  constructor
  · rintro ⟨⟨value, states, -, most⟩, -⟩ other statesOther
    rwa [← states.unique statesOther]
  · intro most
    exact ⟨⟨value, states, positive, most value states⟩, atoms⟩

/-- The annotation `&pr { a } = 2`. -/
def Plog.excessive : TheoryAtom where
  name := "pr"
  elements := [⟨[.constant "a"], []⟩]
  guard := some ⟨.equal, .number 2⟩

/-- A number above one is accepted as a probability. -/
theorem Plog.excessive_accepted :
    (∃ statements, (probability 5 excessive []).result = .ok statements) ∧
      ¬ excessive.IsProbability := by
  have isOk : (probability 5 excessive []).result.isOk = true := by decide +kernel
  refine ⟨Except.exists_eq_ok isOk, ?_⟩
  rintro ⟨⟨value, states, -, most⟩, -⟩
  have isTwo : value = Number.ofInteger 2 := states.unique ⟨_, rfl, .integer 2 none⟩
  rw [isTwo] at most
  exact absurd most (by decide +kernel)

end SoftRules
