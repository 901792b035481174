import SoftRules.Proofs.Encoding.Session
import SoftRules.Proofs.Language.Plain

/-!
Proper components are lexical and plain. The profile of a proper rule is proper: its head, its body,
the literal of its evidence and its global variables.
-/

set_option autoImplicit false

namespace SoftRules

/-! The variables of a lexical component have lexical names. -/

def Variable.isLexical (x : Variable) : Bool := isName isVariableStart x.name

theorem Term.areLexical_operands {operator : Operator} {operands : List Term} {origin : Origin}
    (lexical : (Term.operation operator operands origin).isLexical = true) :
    Term.areLexical operands = true := by
  rcases operands with _ | ⟨first, _ | ⟨second, _ | _⟩⟩
  · cases lexical
  · simp only [Term.isLexical, Bool.and_eq_true] at lexical
    simp [Term.areLexical, lexical.2]
  · simp only [Term.isLexical, Bool.and_eq_true] at lexical
    simp [Term.areLexical, lexical.1.2, lexical.2]
  · cases lexical

mutual

theorem Term.vars_lexical : (term : Term) → term.isLexical = true →
    ∀ x ∈ term.vars, x.isLexical = true
  | .var y, lexical => by
      intro x member
      rw [Term.vars, List.mem_singleton] at member
      rwa [member]
  | .symbol _ _, _ => by
      intro x member
      cases member
  | .function _ arguments _, lexical =>
      Term.varsOf_lexical arguments (Bool.and_eq_true_iff.mp lexical).2
  | .operation _ operands _, lexical =>
      Term.varsOf_lexical operands (Term.areLexical_operands lexical)

theorem Term.varsOf_lexical : (terms : List Term) → Term.areLexical terms = true →
    ∀ x ∈ Term.varsOf terms, x.isLexical = true
  | [], _ => by
      intro x member
      cases member
  | term :: terms, lexical => by
      rw [Term.areLexical, Bool.and_eq_true] at lexical
      rw [Term.varsOf, List.forall_mem_append]
      exact ⟨Term.vars_lexical term lexical.1, Term.varsOf_lexical terms lexical.2⟩

end

theorem guardVariables_lexical {left right : Option Guard} (leftLexical : Guard.isLexical left = true)
    (rightLexical : Guard.isLexical right = true) :
    ∀ x ∈ guardVariables left right, x.isLexical = true := by
  have bound {guard : Option Guard} (lexical : Guard.isLexical guard = true) :
      ∀ x ∈ (guard.map Guard.vars).getD [], x.isLexical = true := by
    cases guard with
    | none =>
        intro x member
        cases member
    | some guard => exact Term.vars_lexical guard.term lexical
  rw [guardVariables, List.forall_mem_append]
  exact ⟨bound leftLexical, bound rightLexical⟩

mutual

theorem Literal.vars_lexical : (literal : Literal) → literal.isLexical = true →
    ∀ x ∈ literal.vars, x.isLexical = true
  | ⟨_, atom, _⟩, lexical => by
      rw [Literal.isLexical] at lexical
      rw [Literal.vars]
      exact Atom.vars_lexical atom lexical

theorem Literal.varsOf_lexical : (literals : List Literal) → Literal.areLexical literals = true →
    ∀ x ∈ Literal.varsOf literals, x.isLexical = true
  | [], _ => by
      intro x member
      cases member
  | literal :: literals, lexical => by
      rw [Literal.areLexical, Bool.and_eq_true] at lexical
      rw [Literal.varsOf, List.forall_mem_append]
      exact ⟨Literal.vars_lexical literal lexical.1, Literal.varsOf_lexical literals lexical.2⟩

theorem Atom.vars_lexical : (atom : Atom Literal) → atom.isLexical = true →
    ∀ x ∈ atom.vars, x.isLexical = true
  | .predicate term _, lexical => by
      rw [Atom.isLexical, Bool.and_eq_true] at lexical
      exact Term.vars_lexical term lexical.2
  | .boolean _ _, _ => by
      intro x member
      cases member
  | .comparison left _ right _, lexical => by
      rw [Atom.isLexical, Bool.and_eq_true] at lexical
      rw [Atom.vars, List.forall_mem_append]
      exact ⟨Term.vars_lexical left lexical.1, Term.vars_lexical right lexical.2⟩
  | .aggregate ⟨left, elements, right, _⟩, lexical => by
      simp only [Atom.isLexical, Aggregate.isLexical, Bool.and_eq_true] at lexical
      rw [Atom.vars, Aggregate.vars, List.forall_mem_append]
      exact ⟨guardVariables_lexical lexical.1.1 lexical.2,
        Conditional.varsOf_lexical elements lexical.1.2⟩
  | .bodyAggregate ⟨_, left, elements, right, _⟩, lexical => by
      simp only [Atom.isLexical, BodyAggregate.isLexical, Bool.and_eq_true] at lexical
      rw [Atom.vars, BodyAggregate.vars, List.forall_mem_append]
      exact ⟨guardVariables_lexical lexical.1.1 lexical.2,
        Element.varsOf_lexical elements lexical.1.2⟩

theorem Conditional.vars_lexical : (element : Conditional Literal) → element.isLexical = true →
    ∀ x ∈ element.vars, x.isLexical = true
  | ⟨literal, condition, _⟩, lexical => by
      rw [Conditional.isLexical, Bool.and_eq_true] at lexical
      rw [Conditional.vars, List.forall_mem_append]
      exact ⟨Literal.vars_lexical literal lexical.1, Literal.varsOf_lexical condition lexical.2⟩

theorem Conditional.varsOf_lexical : (elements : List (Conditional Literal)) →
    Conditional.areLexical elements = true → ∀ x ∈ Conditional.varsOf elements, x.isLexical = true
  | [], _ => by
      intro x member
      cases member
  | element :: elements, lexical => by
      rw [Conditional.areLexical, Bool.and_eq_true] at lexical
      rw [Conditional.varsOf, List.forall_mem_append]
      exact ⟨Conditional.vars_lexical element lexical.1,
        Conditional.varsOf_lexical elements lexical.2⟩

theorem Element.varsOf_lexical : (elements : List (Element Literal)) →
    Element.areLexical elements = true → ∀ x ∈ Element.varsOf elements, x.isLexical = true
  | [], _ => by
      intro x member
      cases member
  | ⟨terms, condition⟩ :: elements, lexical => by
      simp only [Element.areLexical, Element.isLexical, Bool.and_eq_true] at lexical
      rw [Element.varsOf, Element.vars, List.forall_mem_append, List.forall_mem_append]
      exact ⟨⟨Term.varsOf_lexical terms lexical.1.1.2,
        Literal.varsOf_lexical condition lexical.1.2⟩, Element.varsOf_lexical elements lexical.2⟩

end

theorem BodyElement.vars_lexical {element : BodyElement} (lexical : element.isLexical = true) :
    ∀ x ∈ element.vars, x.isLexical = true := by
  cases element with
  | literal content => exact Literal.vars_lexical content lexical
  | conditional content =>
      exact Conditional.vars_lexical content (Bool.and_eq_true_iff.mp lexical).2
  | theory content =>
      intro x member
      cases member

theorem Atom.globals_subset_vars (atom : Atom Literal) : atom.globals ⊆ atom.vars := by
  rcases atom with _ | _ | _ | ⟨left, elements, right, origin⟩ |
    ⟨function, left, elements, right, origin⟩
  case aggregate =>
    rw [Atom.vars, Aggregate.vars]
    exact List.subset_append_left _ _
  case bodyAggregate =>
    rw [Atom.vars, BodyAggregate.vars]
    exact List.subset_append_left _ _
  all_goals exact List.Subset.refl _

/-! Proper components. -/

def Term.IsProper (term : Term) : Prop := term.isLexical = true ∧ term.isPlain = true

def Literal.IsProper (literal : Literal) : Prop :=
  literal.isLexical = true ∧ literal.isPlain = true

def Element.IsProper (element : Element Literal) : Prop :=
  element.isLexical = true ∧ element.isPlain = true

def TheoryAtom.IsProper (atom : TheoryAtom) : Prop := atom.isLexical = true ∧ atom.isPlain = true

def Head.IsProper (head : Head) : Prop := head.isLexical = true ∧ head.isPlain = true

def BodyElement.IsProper (element : BodyElement) : Prop :=
  element.isLexical = true ∧ element.isPlain = true

def Statement.IsProper (statement : Statement) : Prop :=
  statement.isLexical = true ∧ statement.isPlain = true

theorem Head.IsProper.literal {content : Literal}
    (proper : (Head.literal content).IsProper) : content.IsProper := by
  have plain := proper.2
  simp only [Head.isPlain, Bool.and_eq_true] at plain
  exact ⟨(Head.isLexical_literal proper.1).1, plain.2⟩

section Components

variable {term : Term} {literal : Literal} {body : List BodyElement}

theorem Term.isProper_number {value : Int} (fits : Number.fitsInt64 value = true) :
    (Term.number value).IsProper :=
  ⟨fits, rfl⟩

theorem Term.isProper_globals {globals : List Variable}
    (lexical : ∀ x ∈ globals, x.isLexical = true) : (Term.tuple (globals.map .var)).IsProper := by
  have areLexical : Term.areLexical (globals.map .var) = true := by
    rw [Term.areLexical_iff]
    intro term member
    obtain ⟨x, isGlobal, rfl⟩ := List.mem_map.mp member
    exact lexical x isGlobal
  have arePlain : Term.arePlain (globals.map .var) = true := by
    rw [Term.arePlain_iff]
    intro term member
    obtain ⟨x, _, rfl⟩ := List.mem_map.mp member
    rfl
  refine ⟨?_, ?_⟩
  · simp [Term.tuple, Term.isLexical, areLexical]
  · simp [Term.tuple, Term.isPlain, arePlain]

theorem Literal.isProper_predicate (isAtom : term.isAtom = true) (proper : term.IsProper)
    (sign : Sign) (inner outer : Origin) :
    Literal.IsProper { sign, atom := .predicate term inner, origin := outer } := by
  refine ⟨?_, ?_⟩
  · simp [Literal.isLexical, Atom.isLexical, isAtom, proper.1]
  · simp [Literal.isPlain, Atom.isPlain, proper.2]

theorem Head.isProper_predicate (isAtom : term.isAtom = true) (proper : term.IsProper)
    (sign : Sign) (inner outer : Origin) :
    (Head.literal { sign, atom := .predicate term inner, origin := outer }).IsProper := by
  have isProper := Literal.isProper_predicate isAtom proper sign inner outer
  refine ⟨?_, ?_⟩
  · cases sign <;> exact isProper.1
  · simp [Head.isPlain, Atom.isFalse, Atom.isAggregate, isProper.2]

theorem BodyElement.isProper_literal (proper : literal.IsProper) :
    (BodyElement.literal literal).IsProper :=
  proper

theorem Statement.isProper_rule {head : Head} (headProper : head.IsProper)
    (bodyProper : ∀ element ∈ body, element.IsProper) (origin : Origin) :
    (Statement.rule { head, body, origin }).IsProper := by
  refine ⟨Bool.and_eq_true_iff.mpr ⟨headProper.1, ?_⟩, Bool.and_eq_true_iff.mpr ⟨headProper.2, ?_⟩⟩
  · exact List.all_eq_true.mpr fun element member => (bodyProper element member).1
  · exact List.all_eq_true.mpr fun element member => (bodyProper element member).2

theorem Statement.isProper_constraint (bodyProper : ∀ element ∈ body, element.IsProper)
    (origin : Origin) : (Statement.rule (.constraint body origin)).IsProper :=
  Statement.isProper_rule ⟨rfl, rfl⟩ bodyProper origin

theorem Statement.isProper_weakConstraint (nonempty : body ≠ [])
    (bodyProper : ∀ element ∈ body, element.IsProper) {weight priority : Term} {terms : List Term}
    (termsProper : ∀ term ∈ weight :: priority :: terms, term.IsProper) (origin : Origin) :
    (Statement.weakConstraint { body, weight, priority, terms, origin }).IsProper := by
  refine ⟨?_, ?_⟩
  · simp only [Statement.isLexical, Bool.and_eq_true]
    refine ⟨⟨?_, ?_⟩, ?_⟩
    · simp [nonempty]
    · exact List.all_eq_true.mpr fun element member => (bodyProper element member).1
    · exact (Term.areLexical_iff _).mpr fun term member => (termsProper term member).1
  · refine Bool.and_eq_true_iff.mpr ⟨?_, ?_⟩
    · exact List.all_eq_true.mpr fun element member => (bodyProper element member).2
    · exact (Term.arePlain_iff _).mpr fun term member => (termsProper term member).2

end Components

/-! Profiles. -/

structure Profile.IsProper (profile : Profile) : Prop where
  evidence : ∀ literal ∈ profile.evidence, literal.IsProper
  globals : ∀ x ∈ profile.globals, x.isLexical = true

theorem Profile.IsProper.meet {profile : Profile} (proper : profile.IsProper)
    {met : List Variable} (lexical : ∀ x ∈ met, x.isLexical = true) (scope : Scope) :
    (profile.meet scope met).IsProper := by
  cases scope with
  | inner => exact proper
  | outer =>
      refine ⟨proper.evidence, ?_⟩
      intro x member
      rcases mem_foldl_addVariable member with isKnown | ⟨isMet, -⟩
      · exact proper.globals x isKnown
      · exact lexical x isMet

/-- Whether the reading of a theory atom may take its place in a head and in a body. -/
def Reading.IsProper (reading : Reading) : Prop :=
  reading.toHead.IsProper ∧ reading.toBodyElement.IsProper

section Profiles

variable {power : Int} {profile after : Profile} {remark : TheoryAtom}

theorem isProper_evidence {literal : Literal} (proper : remark.IsProper)
    (stated : evidenceLiteral remark = .ok literal) :
    ∃ sign term, literal = { sign, atom := .predicate term, origin := remark.origin } ∧
      term.isAtom = true ∧ term.IsProper := by
  obtain ⟨lexical, plain⟩ := proper
  simp only [TheoryAtom.isLexical, Bool.and_eq_true] at lexical
  simp only [TheoryAtom.isPlain, Bool.and_eq_true] at plain
  have argument {term : Term} {others : List Term} (shape : remark.arguments = term :: others)
      {value : Option String} (stated : evidenceLiteral.literal remark term value = .ok literal) :
      ∃ sign term, literal = { sign, atom := .predicate term, origin := remark.origin } ∧
        term.isAtom = true ∧ term.IsProper := by
    rw [shape] at lexical plain
    unfold evidenceLiteral.literal at stated
    split at stated
    · cases stated
    · next isAtom =>
        cases stated
        refine ⟨_, term, rfl, by simpa using isAtom, ?_⟩
        exact ⟨(Bool.and_eq_true_iff.mp lexical.1.1.2).1, (Bool.and_eq_true_iff.mp plain.1.1).1⟩
  unfold evidenceLiteral at stated
  split at stated
  · next shape => exact argument shape stated
  · next shape => exact argument shape stated
  · cases stated

theorem TheoryAtom.Read.isProper {reading : Reading} (read : remark.Read power profile reading after)
    (proper : remark.IsProper) (isProper : profile.IsProper) :
    reading.IsProper ∧ after.IsProper := by
  cases read with
  | treatment named other => exact ⟨⟨proper, proper⟩, isProper.evidence, isProper.globals⟩
  | evidence named stated =>
      obtain ⟨sign, term, rfl, isAtom, termProper⟩ := isProper_evidence proper stated
      have literalProper := Literal.isProper_predicate isAtom termProper sign none remark.origin
      refine ⟨⟨Head.isProper_predicate isAtom termProper sign none remark.origin, literalProper⟩,
        ?_, isProper.globals⟩
      rintro _ ⟨⟩
      exact literalProper
  | weight unnamed named single first computed =>
      exact ⟨⟨⟨rfl, rfl⟩, ⟨rfl, rfl⟩⟩, isProper.evidence, isProper.globals⟩

theorem BodyElement.Profiled.isProper {element found : BodyElement}
    (profiled : element.Profiled power profile found after) (proper : element.IsProper)
    (isProper : profile.IsProper) : found.IsProper ∧ after.IsProper := by
  cases profiled with
  | literal content =>
      refine ⟨proper, isProper.meet ?_ _⟩
      intro x member
      have lexical := proper.1
      rw [BodyElement.isLexical, Literal.isLexical_eq] at lexical
      exact Atom.vars_lexical content.atom lexical x (content.atom.globals_subset_vars member)
  | conditional content => exact ⟨proper, isProper⟩
  | theory read =>
      obtain ⟨readingProper, afterProper⟩ := read.isProper proper isProper
      exact ⟨readingProper.2, afterProper⟩

theorem BodyElement.ProfiledAll.isProper {body found : List BodyElement}
    (profiled : ProfiledAll power profile body found after)
    (proper : ∀ element ∈ body, element.IsProper) (isProper : profile.IsProper) :
    (∀ element ∈ found, element.IsProper) ∧ after.IsProper := by
  induction profiled with
  | nil profile => exact ⟨proper, isProper⟩
  | cons first others inductionHypothesis =>
      obtain ⟨elementProper, othersProper⟩ := List.forall_mem_cons.mp proper
      obtain ⟨foundProper, middleProper⟩ := first.isProper elementProper isProper
      obtain ⟨restProper, afterProper⟩ := inductionHypothesis othersProper middleProper
      exact ⟨List.forall_mem_cons.mpr ⟨foundProper, restProper⟩, afterProper⟩

theorem Head.Profiled.isProper {head found : Head}
    (profiled : head.Profiled power profile found after) (proper : head.IsProper)
    (isProper : profile.IsProper) : found.IsProper ∧ after.IsProper := by
  cases profiled with
  | literal content =>
      refine ⟨proper, isProper.meet ?_ _⟩
      intro x member
      have lexical := proper.literal.1
      rw [Literal.isLexical_eq] at lexical
      exact Atom.vars_lexical content.atom lexical x (content.atom.globals_subset_vars member)
  | aggregate content =>
      refine ⟨proper, isProper.meet ?_ _⟩
      have lexical : (Atom.aggregate content).isLexical = true := proper.1
      intro x member
      exact Atom.vars_lexical _ lexical x (Atom.globals_subset_vars (.aggregate content) member)
  | theory treated read =>
      obtain ⟨readingProper, afterProper⟩ := read.isProper proper isProper
      exact ⟨readingProper.1, afterProper⟩

end Profiles

structure ProfiledRule.IsProper (rule : ProfiledRule) : Prop where
  head : rule.head.IsProper
  body : ∀ element ∈ rule.body, element.IsProper
  profile : rule.profile.IsProper

theorem Statement.IsProper.parts {source : Rule} (proper : (Statement.rule source).IsProper) :
    source.head.IsProper ∧ ∀ element ∈ source.body, element.IsProper := by
  obtain ⟨lexical, plain⟩ := proper
  simp only [Statement.isLexical, Bool.and_eq_true, List.all_eq_true] at lexical
  simp only [Statement.isPlain, Bool.and_eq_true, List.all_eq_true] at plain
  refine ⟨⟨lexical.1, plain.1⟩, ?_⟩
  exact fun element member => ⟨lexical.2 element member, plain.2 element member⟩

theorem Rule.profile_isProper {source : Rule} {power : Int} {rule : ProfiledRule}
    (proper : (Statement.rule source).IsProper)
    (profiled : (source.profile power).result = .ok rule) : rule.IsProper := by
  obtain ⟨middle, head, body⟩ := Rule.profile_ok profiled
  obtain ⟨headProper, bodyProper⟩ := proper.parts
  have start : Profile.IsProper {} := ⟨by rintro _ ⟨⟩, by rintro _ ⟨⟩⟩
  obtain ⟨isHead, middleProper⟩ := head.isProper headProper start
  obtain ⟨isBody, isProfile⟩ := body.isProper bodyProper middleProper
  exact ⟨isHead, isBody, isProfile⟩

end SoftRules
