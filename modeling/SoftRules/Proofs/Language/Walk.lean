import SoftRules.Proofs.Language.Tour
import Mathlib.Data.List.Perm.Basic

/-!
Traversals that replace variables.

Replacing variables acts on statements like a functor, whether or not the components are watched on
the way, and the variables of a body element are met in some order of its variable list
(`Statement.mapVariables_functorial`). A variable that cannot be replaced ends the traversal at
once: what is on record is the part of the tour up to that variable
(`Statement.trace_interrupted`).
-/

set_option autoImplicit false

namespace SoftRules

/-! The variables on a tour. -/

/-- The variables among some components, in order. -/
def Component.variables (components : List Component) : List Variable :=
  components.filterMap Component.var?

@[simp]
theorem Component.variables_nil : Component.variables [] = [] := rfl

@[simp]
theorem Component.variables_cons (component : Component) (components : List Component) :
    Component.variables (component :: components) =
      component.var?.toList ++ Component.variables components := by
  unfold Component.variables
  cases met : component.var? <;> simp [met]

@[simp]
theorem Component.variables_append (first second : List Component) :
    Component.variables (first ++ second) =
      Component.variables first ++ Component.variables second :=
  List.filterMap_append

mutual

theorem Term.variables_tour : (term : Term) →
    Component.variables term.tour = term.vars
  | .var _ => by simp [Term.tour, Term.vars, Component.var?]
  | .symbol _ _ => by simp [Term.tour, Term.vars, Component.var?]
  | .function _ arguments _ => by
      simp [Term.tour, Term.vars, Component.var?, Term.variables_tourAll arguments]
  | .operation _ operands _ => by
      simp [Term.tour, Term.vars, Component.var?, Term.variables_tourAll operands]

theorem Term.variables_tourAll : (terms : List Term) →
    Component.variables (Term.tourAll terms) = Term.varsOf terms
  | [] => rfl
  | term :: terms => by
      simp [Term.tourAll, Term.varsOf, Term.variables_tour term, Term.variables_tourAll terms]

end

theorem Guard.variables_tour (guard : Option Guard) :
    Component.variables (Guard.tour guard) = (guard.map Guard.vars).getD [] := by
  cases guard with
  | none => rfl
  | some guard => exact guard.term.variables_tour

/-- The right bound is met after the elements, but listed before them. -/
theorem perm_bounds_elements {left right elements listed : List Variable}
    (perm : elements.Perm listed) :
    (left ++ (elements ++ right)).Perm (left ++ (right ++ listed)) :=
  (List.perm_append_comm.trans (perm.append_left right)).append_left left

mutual

theorem Literal.perm_variables_tour : (literal : Literal) →
    (Component.variables literal.tour).Perm literal.vars
  | ⟨_, atom, _⟩ => by
      simpa [Literal.tour, Literal.vars, Component.var?] using Atom.perm_variables_tour atom

theorem Literal.perm_variables_tourAll : (literals : List Literal) →
    (Component.variables (Literal.tourAll literals)).Perm (Literal.varsOf literals)
  | [] => by simp [Literal.tourAll, Literal.varsOf]
  | literal :: literals => by
      simpa [Literal.tourAll, Literal.varsOf] using
        (Literal.perm_variables_tour literal).append (Literal.perm_variables_tourAll literals)

theorem Atom.perm_variables_tour : (atom : Atom Literal) →
    (Component.variables atom.tour).Perm atom.vars
  | .predicate _ _ => by simp [Atom.tour, Atom.vars, Component.var?, Term.variables_tour]
  | .boolean _ _ => by simp [Atom.tour, Atom.vars, Component.var?]
  | .comparison _ _ _ _ => by
      simp [Atom.tour, Atom.vars, Component.var?, Term.variables_tour]
  | .aggregate content => by
      simpa [Atom.tour, Atom.vars, Component.var?] using
        Aggregate.perm_variables_tour content
  | .bodyAggregate content => by
      simpa [Atom.tour, Atom.vars, Component.var?] using
        BodyAggregate.perm_variables_tour content

theorem Aggregate.perm_variables_tour : (aggregate : Aggregate Literal) →
    (Component.variables aggregate.tour).Perm aggregate.vars
  | ⟨left, elements, right, _⟩ => by
      simpa [Aggregate.tour, Aggregate.vars, guardVariables, Component.var?,
        Guard.variables_tour] using
          perm_bounds_elements (Conditional.perm_variables_tourAll elements)

theorem BodyAggregate.perm_variables_tour : (aggregate : BodyAggregate Literal) →
    (Component.variables aggregate.tour).Perm aggregate.vars
  | ⟨_, left, elements, right, _⟩ => by
      simpa [BodyAggregate.tour, BodyAggregate.vars, guardVariables, Component.var?,
        Guard.variables_tour] using
          perm_bounds_elements (Element.perm_variables_tourAll elements)

theorem Conditional.perm_variables_tour : (element : Conditional Literal) →
    (Component.variables element.tour).Perm element.vars
  | ⟨literal, condition, _⟩ => by
      simpa [Conditional.tour, Conditional.vars, Component.var?] using
        (Literal.perm_variables_tour literal).append (Literal.perm_variables_tourAll condition)

theorem Conditional.perm_variables_tourAll : (elements : List (Conditional Literal)) →
    (Component.variables (Conditional.tourAll elements)).Perm
      (Conditional.varsOf elements)
  | [] => by simp [Conditional.tourAll, Conditional.varsOf]
  | element :: elements => by
      simpa [Conditional.tourAll, Conditional.varsOf] using
        (Conditional.perm_variables_tour element).append
          (Conditional.perm_variables_tourAll elements)

theorem Element.perm_variables_tour : (element : Element Literal) →
    (Component.variables element.tour).Perm element.vars
  | ⟨terms, condition⟩ => by
      simpa [Element.tour, Element.vars, Component.var?, Term.variables_tourAll] using
        (Literal.perm_variables_tourAll condition).append_left (Term.varsOf terms)

theorem Element.perm_variables_tourAll : (elements : List (Element Literal)) →
    (Component.variables (Element.tourAll elements)).Perm (Element.varsOf elements)
  | [] => by simp [Element.tourAll, Element.varsOf]
  | element :: elements => by
      simpa [Element.tourAll, Element.varsOf] using
        (Element.perm_variables_tour element).append (Element.perm_variables_tourAll elements)

end

theorem BodyElement.perm_variables_tour {element : BodyElement}
    (plain : ∀ atom, element ≠ .theory atom) :
    (Component.variables element.tour).Perm element.vars := by
  cases element with
  | literal content =>
      simpa [BodyElement.tour, BodyElement.vars, Component.var?] using
        content.perm_variables_tour
  | conditional content =>
      simpa [BodyElement.tour, BodyElement.vars, Component.var?] using
        content.perm_variables_tour
  | theory content => exact absurd rfl (plain content)

/-! Traversals that are not watched. -/

theorem Visitor.replacing_eq_meeting {m : Type → Type} [Monad m] [LawfulMonad m]
    (check : Variable → m Unit) (replace : Variable → Variable) :
    Visitor.replacing (fun x => do check x; return replace x) =
      .meeting (fun _ => pure ()) check replace := by
  simp [Visitor.replacing, Visitor.meeting, Visitor.watching]

theorem Statement.mapVariables_eq (replace : Variable → Variable) (statement : Statement) :
    statement.mapVariables replace = statement.substitute replace := by
  have visitor : Visitor.replacing (m := Id) replace =
      .meeting (fun _ => pure ()) (fun _ => pure ()) replace :=
    Visitor.replacing_eq_meeting (m := Id) (fun _ => pure ()) replace
  rw [Statement.mapVariables, visitor, statement.visit_meeting]
  rfl

/-- Replaces a variable and keeps a record of it. -/
def Variable.noting (replace : Variable → Variable) (x : Variable) :
    StateM (List Variable) Variable := do
  modify (· ++ [x])
  return replace x

theorem forM_meet_noting (components : List Component) (noted : List Variable) :
    (components.forM (Component.meet (m := StateM (List Variable)) (fun _ => pure ())
      fun x => modify (· ++ [x]))).run noted =
      ((), noted ++ Component.variables components) := by
  induction components generalizing noted with
  | nil => exact Prod.ext rfl (List.append_nil noted).symm
  | cons component components inductionHypothesis =>
      simp only [List.forM_eq_forM, List.forM_cons] at inductionHypothesis ⊢
      cases met : component.var? with
      | some x => simp [Component.meet, met, inductionHypothesis]
      | none => simp [Component.meet, met, inductionHypothesis]

theorem BodyElement.run_visit_noting (replace : Variable → Variable) (element : BodyElement) :
    (element.visit (.replacing (Variable.noting replace))).run [] =
      (element.substitute replace, Component.variables element.tour) := by
  have visitor : Visitor.replacing (Variable.noting replace) =
      .meeting (fun _ => pure ()) (fun x => modify (· ++ [x])) replace :=
    Visitor.replacing_eq_meeting _ _
  rw [visitor, element.visit_meeting, StateT.run_bind, forM_meet_noting]
  rfl

/-! Traversals that may end early. -/

section Trace

variable {ε : Type} (stop? : Variable → Option ε)

/-- Puts a component on record. -/
def Component.record (component : Component) : ExceptT ε (StateM (List Component)) Unit :=
  modify (component :: ·)

/-- Ends the visit at a variable that cannot be replaced. -/
def Variable.allow (x : Variable) : ExceptT ε (StateM (List Component)) Unit :=
  match stop? x with
  | some fault => throw fault
  | none => pure ()

/-- The fault that a component gives rise to. -/
def Component.fault? (component : Component) : Option ε := component.var?.bind stop?

/-- How a visit ends. -/
def ending {α : Type} (fault? : Option ε) (value : α) : Except ε α :=
  match fault? with
  | some fault => .error fault
  | none => .ok value

theorem exists_ending_eq_error {α : Type} {fault? : Option ε} {value : α} :
    (∃ error, ending fault? value = .error error) ↔ fault?.isSome = true := by
  cases fault? <;> simp [ending]

theorem run_bind_of_ok {α β : Type} {first : ExceptT ε (StateM (List Component)) α}
    {next : α → ExceptT ε (StateM (List Component)) β} {seen met : List Component} {value : α}
    (ran : first.run.run seen = (.ok value, met)) :
    (first >>= next).run.run seen = (next value).run.run met := by
  rw [ExceptT.run_bind, StateT.run_bind, ran]
  rfl

theorem run_bind_of_error {α β : Type} {first : ExceptT ε (StateM (List Component)) α}
    {next : α → ExceptT ε (StateM (List Component)) β} {seen met : List Component} {fault : ε}
    (ran : first.run.run seen = (.error fault, met)) :
    (first >>= next).run.run seen = (.error fault, met) := by
  rw [ExceptT.run_bind, StateT.run_bind, ran]
  rfl

theorem Component.run_meet (component : Component) (seen : List Component) :
    (component.meet Component.record (Variable.allow stop?)).run.run seen =
      (ending (component.fault? stop?) (), component :: seen) := by
  unfold Component.meet Component.fault? Variable.allow
  cases met : component.var? with
  | none => rfl
  | some x => cases stopped : stop? x <;> simp [stopped] <;> rfl

/-- A visit goes on until a component gives rise to a fault. That component is the last one on
record. -/
theorem run_forM_meet (components seen : List Component) :
    (components.forM (Component.meet Component.record (Variable.allow stop?))).run.run seen =
      (ending (components.findSome? (Component.fault? stop?)) (),
        (components.take (components.findIdx (·.fault? stop? |>.isSome) + 1)).reverse ++ seen) := by
  induction components generalizing seen with
  | nil => rfl
  | cons component components inductionHypothesis =>
      have first := component.run_meet stop? seen
      cases faulty : component.fault? stop? with
      | some fault =>
          rw [faulty] at first
          simpa [faulty, ending, List.findIdx_cons] using run_bind_of_error first
      | none =>
          rw [faulty] at first
          refine (run_bind_of_ok first).trans ?_
          simpa [faulty, List.findIdx_cons] using inductionHypothesis (component :: seen)

theorem Statement.trace_eq_visit (replace : Variable → Variable) (statement : Statement) :
    statement.trace (fun x => ending (stop? x) (replace x)) =
      ((statement.visit (.meeting Component.record (Variable.allow stop?) replace)).run.run []).map
        id List.reverse := by
  have replaced (x : Variable) :
      Statement.trace.liftExcept (ending (stop? x) (replace x)) =
        do Variable.allow stop? x; return replace x := by
    unfold Variable.allow
    cases stop? x <;> rfl
  unfold Statement.trace
  simp only [replaced]
  rfl

/-- What a visit returns and leaves on record. -/
theorem Statement.trace_eq (replace : Variable → Variable) (statement : Statement) :
    statement.trace (fun x => ending (stop? x) (replace x)) =
      (ending (statement.tour.findSome? (Component.fault? stop?)) (statement.substitute replace),
        statement.tour.take (statement.tour.findIdx (·.fault? stop? |>.isSome) + 1)) := by
  have met := run_forM_meet stop? statement.tour []
  rw [statement.trace_eq_visit, Statement.visit_meeting]
  cases faulty : statement.tour.findSome? (Component.fault? stop?) with
  | some fault =>
      rw [faulty] at met
      rw [run_bind_of_error met]
      simp [ending]
  | none =>
      rw [faulty] at met
      rw [run_bind_of_ok met]
      change (Except.ok (statement.substitute replace), (List.reverse _ ++ []).reverse) = _
      simp [ending]

theorem Statement.trace_ok (replace : Variable → Variable) (statement : Statement) :
    statement.trace (fun x => (.ok (replace x) : Except ε Variable)) =
      (.ok (statement.substitute replace), statement.tour) := by
  have never : Component.fault? (fun _ => (none : Option ε)) = fun _ => none := by
    funext component
    exact Option.bind_fun_none _
  have faultless : statement.tour.findSome? (fun _ => (none : Option ε)) = none :=
    List.findSome?_eq_none_iff.mpr fun _ _ => rfl
  refine (statement.trace_eq (fun _ => (none : Option ε)) replace).trans ?_
  simp [never, faultless, ending, List.findIdx_eq_length_of_false, List.take_of_length_le]

end Trace

theorem Statement.mapVariables_mapVariables (first second : Variable → Variable)
    (statement : Statement) :
    (statement.mapVariables first).mapVariables second =
      statement.mapVariables (second ∘ first) := by
  simp only [Statement.mapVariables_eq, Statement.substitute_substitute]

/-- Visiting a statement to replace its variables replaces them and changes nothing else. The
identity changes nothing, and two replacements in a row are one. Watching the components on the way
does not change the result. The variables of a body element that is not a theory atom are met in
some order of its variable list. -/
theorem Statement.mapVariables_functorial (statement : Statement)
    (first second : Variable → Variable) :
    statement.mapVariables first = statement.substitute first ∧
      statement.mapVariables id = statement ∧
      (statement.mapVariables first).mapVariables second =
        statement.mapVariables (second ∘ first) ∧
      (∀ ε : Type, (statement.trace fun x => (.ok (first x) : Except ε Variable)).1 =
        .ok (statement.mapVariables first)) ∧
      ∀ element : BodyElement, (∀ atom, element ≠ .theory atom) →
        ∃ met, (element.visit (.replacing (Variable.noting first))).run [] =
            (element.substitute first, met) ∧
          met.Perm element.vars := by
  refine ⟨statement.mapVariables_eq first, ?_, statement.mapVariables_mapVariables first second,
    ?_, ?_⟩
  · rw [Statement.mapVariables_eq, Statement.substitute_id]
  · intro ε
    rw [Statement.trace_ok, Statement.mapVariables_eq]
  · intro element plain
    exact ⟨_, element.run_visit_noting first, element.perm_variables_tour plain⟩

/-- The body element `#sum { X: p(X,Y) } > Z`. Its bound is met last and listed first. -/
def BodyElement.boundedSum : BodyElement :=
  let atom : Literal := .positive (.predicate (.function "p" [.var ⟨"X", none⟩, .var ⟨"Y", none⟩]))
  .literal (.positive (.bodyAggregate {
    function := .sum
    elements := [⟨[.var ⟨"X", none⟩], [atom]⟩]
    right := some ⟨.greater, .var ⟨"Z", none⟩⟩ }))

theorem Statement.mapVariables_functorial_boundedSum :
    let statement := Statement.rule (.constraint [.boundedSum])
    let marked (x : Variable) : Variable := { x with name := x.name ++ "1" }
    (∀ atom, BodyElement.boundedSum ≠ .theory atom) ∧
      statement.mapVariables marked = statement.substitute marked ∧
      statement.mapVariables id = statement ∧
      (statement.mapVariables marked).mapVariables marked =
        statement.mapVariables (marked ∘ marked) ∧
      (∀ ε : Type, (statement.trace fun x => (.ok (marked x) : Except ε Variable)).1 =
        .ok (statement.mapVariables marked)) ∧
      ∃ met, (BodyElement.boundedSum.visit (.replacing (Variable.noting marked))).run [] =
          (BodyElement.boundedSum.substitute marked, met) ∧
        met.Perm BodyElement.boundedSum.vars := by
  intro statement marked
  have plain : ∀ atom, BodyElement.boundedSum ≠ .theory atom := by simp [BodyElement.boundedSum]
  obtain ⟨replaced, same, composed, watched, perm⟩ :=
    statement.mapVariables_functorial marked marked
  exact ⟨plain, replaced, same, composed, watched, perm _ plain⟩

/-- The component is a variable of the given name. -/
def Component.isVariableNamed (name : String) (component : Component) : Bool :=
  component.var?.any (·.name == name)

/-- Fails at the variables of a name. -/
def stopAt {ε : Type} (name : String) (fault : Variable → ε) (x : Variable) : Option ε :=
  if x.name = name then some (fault x) else none

theorem ending_stopAt {ε α : Type} (name : String) (fault : Variable → ε) (x : Variable)
    (value : α) :
    ending (stopAt name fault x) value = if x.name = name then .error (fault x) else .ok value := by
  unfold stopAt
  split <;> rfl

theorem Component.isSome_fault?_stopAt {ε : Type} (name : String) (fault : Variable → ε)
    (component : Component) :
    (component.fault? (stopAt name fault)).isSome = component.isVariableNamed name := by
  unfold Component.fault? Component.isVariableNamed
  cases component.var? with
  | none => rfl
  | some x => by_cases named : x.name = name <;> simp [stopAt, named]

theorem Component.exists_isVariableNamed {name : String} {components : List Component} :
    (∃ component ∈ components, component.isVariableNamed name = true) ↔
      ∃ x, .var x ∈ components ∧ x.name = name := by
  constructor
  · rintro ⟨component, member, named⟩
    cases component with
    | var x => exact ⟨x, member, by simpa [isVariableNamed, var?] using named⟩
    | _ => simp [isVariableNamed, var?] at named
  · rintro ⟨x, member, named⟩
    exact ⟨.var x, member, by simp [isVariableNamed, var?, named]⟩

/-- A visit that fails at the variables of some name leaves on record what the visit without the
failure meets up to the first of them, and fails exactly if it meets one. -/
theorem Statement.trace_interrupted {ε : Type} (statement : Statement) (name : String)
    (fault : Variable → ε) (replace : Variable → Variable) :
    let whole := statement.trace fun x => (.ok (replace x) : Except ε Variable)
    let interrupted := statement.trace fun x =>
      if x.name = name then .error (fault x) else .ok (replace x)
    whole.2 = statement.tour ∧
      interrupted.2 = whole.2.take (whole.2.findIdx (·.isVariableNamed name) + 1) ∧
      ((∃ error, interrupted.1 = .error error) ↔ ∃ x, .var x ∈ whole.2 ∧ x.name = name) := by
  intro whole interrupted
  have whole_eq : whole = (.ok (statement.substitute replace), statement.tour) :=
    statement.trace_ok replace
  have interrupted_eq := statement.trace_eq (stopAt name fault) replace
  simp only [ending_stopAt] at interrupted_eq
  change interrupted = _ at interrupted_eq
  rw [whole_eq, interrupted_eq]
  simp only [Component.isSome_fault?_stopAt, exists_ending_eq_error, List.findSome?_isSome_iff,
    Component.exists_isVariableNamed, and_self]

end SoftRules
