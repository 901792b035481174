import SoftRules.Proofs.Encoding.Calls
import SoftRules.Proofs.Encoding.Plog

/-!
The variables of penalties. The terms that tell penalties apart must not have variables that are
bound inside of a conditional literal or of an element of an aggregate only.

The penalties of rules respect this, since the profile collects global variables alone. The ones of
probabilities collect all variables of the body, and `Program.keys_global_iff` says for which bodies
that makes no difference.
-/

set_option autoImplicit false

namespace SoftRules

/-- The variables of a body element outside of conditional literals, elements and theory atoms. -/
def BodyElement.globals : BodyElement → List Variable
  | .literal content => content.atom.globals
  | _ => []

def Head.globals : Head → List Variable
  | .literal content => content.atom.globals
  | .aggregate content => guardVariables content.left content.right
  | .theory _ => []

/-- The variables that an element of a probability has as an atom with a condition. -/
def Element.globals (element : Element Literal) : List Variable :=
  Term.varsOf element.terms ++ element.condition.flatMap fun literal => literal.atom.globals

namespace WeakConstraint

/-- The variables of the weight, of the priority and of the terms that tell charges apart. -/
def keyVars (constraint : WeakConstraint) : List Variable :=
  constraint.weight.vars ++ constraint.priority.vars ++ Term.varsOf constraint.terms

/-- Every variable of the key is a global one of the body. -/
def KeyIsGlobal (constraint : WeakConstraint) : Prop :=
  ∀ x ∈ constraint.keyVars,
    x.name ∈ (constraint.body.flatMap BodyElement.globals).map Variable.name

end WeakConstraint

@[simp] theorem Term.vars_var (x : Variable) : (Term.var x).vars = [x] := by rw [Term.vars]

@[simp] theorem Term.vars_number (value : Int) : (Term.number value).vars = [] := by
  rw [Term.number, Term.vars]

@[simp] theorem Term.vars_tuple (terms : List Term) :
    (Term.tuple terms).vars = Term.varsOf terms := by
  rw [Term.tuple, Term.vars]

theorem Term.varsOf_eq (terms : List Term) : Term.varsOf terms = terms.flatMap Term.vars := by
  induction terms with
  | nil => rfl
  | cons term terms inductionHypothesis => rw [Term.varsOf, inductionHypothesis, List.flatMap_cons]

@[simp] theorem Term.flatMap_vars_map_var (known : List Variable) :
    (known.map Term.var).flatMap Term.vars = known := by
  simp [List.flatMap_map]

/-! The global variables of a rule as it has been read. -/

section Profiled

variable {power : Int} {profile after : Profile} {x : Variable}

theorem Profile.mem_globals_meet {met : List Variable}
    (member : x ∈ (profile.meet .outer met).globals) : x ∈ profile.globals ∨ x ∈ met := by
  rcases mem_foldl_addVariable member with isKnown | ⟨isMet, -⟩
  · exact .inl isKnown
  · exact .inr isMet

theorem TheoryAtom.Read.globals_eq {remark : TheoryAtom} {reading : Reading}
    (read : remark.Read power profile reading after) : after.globals = profile.globals := by
  cases read with
  | treatment => rfl
  | evidence => rfl
  | weight => rfl

theorem BodyElement.ProfiledAll.mem_globals {body found : List BodyElement}
    (profiled : ProfiledAll power profile body found after) (member : x ∈ after.globals) :
    x ∈ profile.globals ∨ x ∈ found.flatMap BodyElement.globals := by
  induction profiled with
  | nil profile => exact .inl member
  | @cons profile middle after element element' body body' first others inductionHypothesis =>
      rw [List.flatMap_cons, List.mem_append]
      rcases inductionHypothesis member with isKnown | later
      · cases first with
        | literal content =>
            rcases Profile.mem_globals_meet isKnown with isKnown | isMet
            · exact .inl isKnown
            · exact .inr (.inl isMet)
        | conditional content => exact .inl isKnown
        | theory read => exact .inl (read.globals_eq ▸ isKnown)
      · exact .inr (.inr later)

theorem Head.Profiled.mem_globals {head head' : Head}
    (profiled : head.Profiled power profile head' after) (member : x ∈ after.globals) :
    x ∈ profile.globals ∨ x ∈ head'.globals := by
  cases profiled with
  | literal content => exact Profile.mem_globals_meet member
  | aggregate content => exact Profile.mem_globals_meet member
  | theory _ read => exact .inl (read.globals_eq ▸ member)

theorem Rule.mem_globals {source : Rule} {rule : ProfiledRule}
    (profiled : (source.profile power).result = .ok rule) (member : x ∈ rule.profile.globals) :
    x ∈ rule.head.globals ++ rule.body.flatMap BodyElement.globals := by
  obtain ⟨middle, head, body⟩ := Rule.profile_ok profiled
  rw [List.mem_append]
  rcases body.mem_globals member with isKnown | inBody
  · rcases head.mem_globals isKnown with isKnown | inHead
    · cases isKnown
    · exact .inl inHead
  · exact .inr inBody

end Profiled

/-! Penalties of rules. -/

section Encoder

variable {head : Head} {notHead : Literal} {mode : Mode} {index : Nat} {origin : Origin}

theorem Head.globals_negation (negation : head.negation? = some notHead) :
    notHead.atom.globals = head.globals := by
  unfold Head.negation? at negation
  split at negation
  · cases negation
    rfl
  · split at negation
    · cases negation
      rfl
    · cases negation
  · cases negation

/-- A head that needs no choice is `#false`, which has no variables. -/
theorem Head.globals_of_closed (negation : head.negation? = some notHead)
    (closed : head.choice? = none) : head.globals = [] := by
  unfold Head.choice? at closed
  split at closed
  · next content =>
      split at closed
      · next isFalse =>
          cases atom : content.atom with
          | boolean value => simp [Head.globals, atom, Atom.globals]
          | _ => simp [atom, Atom.isFalse] at isFalse
      · cases closed
  · cases closed
  · cases negation

theorem Penalty.keyVars_ofProfile {body : List BodyElement} {profile : Profile}
    {constraint : WeakConstraint}
    (made : (Penalty.ofProfile index profile).weakConstraint body origin =
      .weakConstraint constraint) :
    constraint.body = body ∧ constraint.keyVars = profile.globals := by
  cases made
  unfold WeakConstraint.keyVars Penalty.ofProfile
  cases profile.weight with
  | hard => simp [Term.varsOf_eq]
  | soft weight => simp [Term.varsOf_eq, Weight.toTerm]

/-- The key of a rule has its global variables, and they all occur in the body of the penalty. -/
theorem ProfiledRule.keyIsGlobal_expansion {rule : ProfiledRule}
    (known : ∀ x ∈ rule.profile.globals,
      x ∈ rule.head.globals ++ rule.body.flatMap BodyElement.globals) :
    ∀ constraint, .weakConstraint constraint ∈ rule.expansion mode index origin →
      constraint.KeyIsGlobal := by
  intro constraint member
  have suffices_body {body : List BodyElement}
      (made : .weakConstraint constraint =
        (Penalty.ofProfile index rule.profile).weakConstraint body origin)
      (covers : rule.profile.globals ⊆ body.flatMap BodyElement.globals) :
      constraint.KeyIsGlobal := by
    obtain ⟨isBody, isKey⟩ := Penalty.keyVars_ofProfile made.symm
    intro x inKey
    rw [isKey] at inKey
    rw [isBody]
    exact List.mem_map_of_mem (covers inKey)
  have emits := ProfiledRule.emits_of_mem member
  generalize made : Statement.weakConstraint constraint = statement at emits
  cases emits with
  | kept _ => cases made
  | violation _ _ => cases made
  | unviolated _ _ => cases made
  | choice _ _ => cases made
  | markPenalty negation marked =>
      refine suffices_body made ?_
      intro x inKey
      -- The mark has the globals among its arguments.
      have isArgument : (Penalty.ofProfile index rule.profile).globals =
          .tuple (rule.profile.globals.map .var) := by
        unfold Penalty.ofProfile
        cases rule.profile.weight <;> rfl
      simp [BodyElement.globals, Literal.positive, Penalty.violation, Atom.globals, Term.vars,
        Term.varsOf_eq, isArgument, inKey]
  | penalty negation compact isSwitch =>
      refine suffices_body made ?_
      intro x inKey
      have found := known x inKey
      rw [← Head.globals_negation negation] at found
      rw [List.flatMap_append, List.flatMap_cons]
      exact List.mem_append_right _ found
  | closedPenalty negation closed compact isSwitch =>
      refine suffices_body made ?_
      intro x inKey
      have found := known x inKey
      rw [Head.globals_of_closed negation closed, List.nil_append] at found
      rw [List.flatMap_append]
      exact List.mem_append_right _ found

end Encoder

/-! Penalties of probabilities. -/

/-- Each named variable of the body is a global one, or one of each element of the head. -/
def ProfiledRule.BindsLocals (rule : ProfiledRule) : Prop :=
  ∀ remark, rule.head = .theory remark → ∀ element ∈ remark.elements,
    ∀ x ∈ rule.body.flatMap BodyElement.vars, x.isAnonymous = false →
      x.name ∈ (element.globals ++ rule.body.flatMap BodyElement.globals).map Variable.name

namespace Plog

variable {remark : TheoryAtom} {body : List BodyElement} {element : Element Literal} {atom : Term}
  {weight : Weight}

theorem globals_penalty (single : element.terms = [atom]) :
    (penalty weight remark body element atom).body.flatMap BodyElement.globals =
      element.globals ++ body.flatMap BodyElement.globals := by
  simp [penalty, Element.globals, single, Term.varsOf_eq, BodyElement.globals, Literal.negative,
    Atom.globals, List.flatMap_map]

theorem keyVars_penalty :
    (penalty weight remark body element atom).keyVars = atom.vars ++ bodyVariables body := by
  simp [WeakConstraint.keyVars, penalty, Weight.toTerm, Term.varsOf_eq, Term.constant, Term.vars]

theorem keyIsGlobal_penalty_iff (single : element.terms = [atom]) :
    (penalty weight remark body element atom).KeyIsGlobal ↔
      ∀ x ∈ body.flatMap BodyElement.vars, x.isAnonymous = false →
        x.name ∈ (element.globals ++ body.flatMap BodyElement.globals).map Variable.name := by
  rw [WeakConstraint.KeyIsGlobal, globals_penalty single, keyVars_penalty]
  constructor
  · intro global x member named
    obtain ⟨y, isVariable, same⟩ := List.mem_map.mp (name_mem_foldl_addVariable member named)
    rw [← same]
    exact global y (List.mem_append_right _ isVariable)
  · intro binds x member
    rcases List.mem_append.mp member with inAtom | inBody
    · apply List.mem_map_of_mem
      apply List.mem_append_left
      simp [Element.globals, single, Term.varsOf_eq, inAtom]
    · rcases mem_foldl_addVariable inBody with isKnown | ⟨isMet, named⟩
      · cases isKnown
      · exact binds x isMet named

end Plog

namespace Session

variable {session after : Session} {source : Rule} {statements : List Statement}

theorem keys_global_plog_iff {rule : ProfiledRule} {treatment : Treatment}
    (standard : ∃ power, session.plog = .standard power)
    (converted : (session.encodePlog source treatment rule).result = .ok statements) :
    (∀ constraint, .weakConstraint constraint ∈ statements → constraint.KeyIsGlobal) ↔
      (treatment = .probability → rule.BindsLocals) := by
  obtain ⟨remark, isHead, -, encoded⟩ := encodePlog_ok standard converted
  cases encoded with
  | random chosen => exact iff_of_true (by simp) (by simp)
  | @probability weight _ nonempty charged =>
      constructor
      · intro global _ other sameHead element member
        cases isHead.symm.trans sameHead
        obtain ⟨statement, isStatement, atom, isAtom, rfl⟩ :=
          exists_of_forall₂ charged.flip element member
        have single := (Plog.elementAtom_ok isAtom).1
        exact (Plog.keyIsGlobal_penalty_iff single).mp (global _ isStatement)
      · intro binds constraint member
        obtain ⟨element, isElement, atom, isAtom, same⟩ :=
          exists_of_forall₂ charged (.weakConstraint constraint) member
        cases same
        have single := (Plog.elementAtom_ok isAtom).1
        exact (Plog.keyIsGlobal_penalty_iff single).mpr (binds rfl remark isHead element isElement)
  | observation other stated =>
      refine iff_of_true ?_ (fun isProbability => absurd isProbability other.2)
      intro constraint member
      obtain ⟨element, _, atom, _, same⟩ := exists_of_forall₂ stated _ member
      cases same

/-- The penalties of a rule have global variables in their keys, unless it is a probability with
other local variables in its body. -/
theorem RuleStep.keys_iff_bindsLocals (standard : ∃ power, session.plog = .standard power)
    (step : session.RuleStep source statements after) :
    (∀ constraint, .weakConstraint constraint ∈ statements → constraint.KeyIsGlobal) ↔
      ∀ rule, (source.profile session.mode.power).result = .ok rule →
        rule.profile.treatment = some .probability → rule.BindsLocals := by
  have otherwise {rule : ProfiledRule}
      (profiled : (source.profile session.mode.power).result = .ok rule)
      (other : rule.profile.treatment ≠ some .probability) :
      ∀ rule, (source.profile session.mode.power).result = .ok rule →
        rule.profile.treatment = some .probability → rule.BindsLocals := by
    intro rule' profiled' treated
    cases profiled.symm.trans profiled'
    exact absurd treated other
  cases step with
  | fact fact =>
      refine iff_of_true (by simp) ?_
      intro rule profiled treated
      have unasked : source.treatments = [] := by
        have head : source.head.treatment? = none := by
          have plain := fact.1
          cases isHead : source.head with
          | theory remark => simp [isHead, Head.isTheory] at plain
          | _ => rfl
        simp [Rule.treatments, Rule.bodyTreatments, head, fact.2]
      rw [Rule.profile_treatment profiled, unasked] at treated
      cases treated
  | query fresh profiled treated =>
      exact iff_of_true (by simp) (otherwise profiled (by simp [treated]))
  | evidence fresh profiled treated forbids =>
      exact iff_of_true (by simp) (otherwise profiled (by simp [treated]))
  | @plog rule treatment _ fresh profiled treated special converted nonempty =>
      rw [keys_global_plog_iff standard converted]
      constructor
      · intro binds rule' profiled' isProbability
        cases profiled.symm.trans profiled'
        exact binds (Option.some.inj (treated.symm.trans isProbability))
      · intro binds isProbability
        exact binds rule profiled (by rw [treated, isProbability])
  | kept fresh profiled untreated hard off =>
      exact iff_of_true (by simp) (otherwise profiled (by simp [untreated]))
  | encoded fresh profiled untreated on plain =>
      refine iff_of_true ?_ (otherwise profiled (by simp [untreated]))
      exact ProfiledRule.keyIsGlobal_expansion fun x member => Rule.mem_globals profiled member

end Session

namespace Program

/-- The penalties of the output are those that are emitted for rules and those of the program. The
keys of the former have global variables only, exactly if each probability binds the local variables
of its body in its elements or in the rest of the body. -/
theorem keys_global_iff {mode : Mode} {program target : Program}
    (encoded : (program.encode mode).result = .ok target) :
    (∀ constraint, .weakConstraint constraint ∈ target ↔
      (∃ source, program.Emits mode source (.weakConstraint constraint)) ∨
        .weakConstraint constraint ∈ program) ∧
    ((∀ source constraint, program.Emits mode source (.weakConstraint constraint) →
      constraint.KeyIsGlobal) ↔
        ∀ source rule, .rule source ∈ program → (source.profile mode.power).result = .ok rule →
          rule.profile.treatment = some .probability → rule.BindsLocals) := by
  refine ⟨fun constraint => (mem_encode_iff encoded).trans (by simp [Statement.isRule]), ?_, ?_⟩
  · intro global source rule member
    obtain ⟨session, statements, after, rfl, standard, step, emits⟩ := exists_step encoded member
    refine (step.keys_iff_bindsLocals ⟨_, standard⟩).mp ?_ rule
    exact fun constraint isStatement => global source constraint (emits _ isStatement)
  · intro binds source constraint emits
    obtain ⟨member, session, statements, after, rfl, standard, step, isStatement⟩ := emits.step
    refine (step.keys_iff_bindsLocals ⟨_, standard⟩).mpr ?_ constraint isStatement
    exact fun rule => binds source rule member

/-- The rule `&pr { a(X) : d(X); e } = "0.5" :- b(X), g(Y), c(Y) : d(Y).` -/
def boundProbability : Rule where
  head := .theory {
    name := "pr"
    elements := [⟨[.function "a" [.var ⟨"X", none⟩]],
        [.positive (.predicate (.function "d" [.var ⟨"X", none⟩]))]⟩, ⟨[.constant "e"], []⟩]
    guard := some ⟨.equal, .text "0.5"⟩ }
  body := [.literal (.positive (.predicate (.function "b" [.var ⟨"X", none⟩]))),
    .literal (.positive (.predicate (.function "g" [.var ⟨"Y", none⟩]))),
    .conditional {
      literal := .positive (.predicate (.function "c" [.var ⟨"Y", none⟩]))
      condition := [.positive (.predicate (.function "d" [.var ⟨"Y", none⟩]))] }]

theorem keys_global_boundProbability :
    ∃ target, (encode {} [.rule boundProbability]).result = .ok target ∧
      ∀ source constraint, Emits {} [.rule boundProbability] source (.weakConstraint constraint) →
        constraint.KeyIsGlobal := by
  have isOk : (encode {} [.rule boundProbability]).result.isOk = true := by decide +kernel
  obtain ⟨target, encoded⟩ := Except.exists_eq_ok isOk
  refine ⟨target, encoded, (keys_global_iff encoded).2.mpr ?_⟩
  intro source rule member profiled _ remark isHead
  cases List.mem_singleton.mp member
  cases profiled
  cases isHead
  decide

/-- The rule `&pr { a } = "0.5" :- b(X) : c(X).` -/
def localProbability : Rule where
  head := .theory {
    name := "pr"
    elements := [⟨[.constant "a"], []⟩]
    guard := some ⟨.equal, .text "0.5"⟩ }
  body := [.conditional {
    literal := .positive (.predicate (.function "b" [.var ⟨"X", none⟩]))
    condition := [.positive (.predicate (.function "c" [.var ⟨"X", none⟩]))] }]

/-- The variable of the condition gets into the key. -/
theorem key_with_local_variable :
    ∃ target, (encode { power := 0 } [.rule localProbability]).result = .ok target ∧
      ∃ constraint, Emits { power := 0 } [.rule localProbability] localProbability
        (.weakConstraint constraint) ∧ ¬ constraint.KeyIsGlobal := by
  have isOk : (encode { power := 0 } [.rule localProbability]).result.isOk = true := by
    decide +kernel
  obtain ⟨target, encoded⟩ := Except.exists_eq_ok isOk
  refine ⟨target, encoded, ?_⟩
  obtain ⟨session, statements, after, isMode, standard, step, emits⟩ :=
    exists_step encoded (List.mem_singleton.mpr rfl)
  by_contra allGlobal
  have binds := (step.keys_iff_bindsLocals ⟨_, standard⟩).mp fun constraint member => by
    by_contra isLocal
    exact allGlobal ⟨constraint, emits _ member, isLocal⟩
  rw [isMode] at binds
  have bound := binds _ rfl rfl _ rfl _ (List.mem_singleton.mpr rfl) ⟨"X", none⟩
  revert bound
  decide

end Program

end SoftRules
