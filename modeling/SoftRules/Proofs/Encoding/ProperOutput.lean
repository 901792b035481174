import SoftRules.Proofs.Encoding.Annotation
import SoftRules.Proofs.Encoding.Plog
import SoftRules.Proofs.Encoding.ProperProfile
import SoftRules.Proofs.Grammar.Accepted
import SoftRules.Proofs.Grammar.Statement

/-!
The output of the encoding can be printed and read again.

Every step of a session makes proper statements of a proper one: penalties are proper, and so are
the statements for P-log annotations. Indices are numbers of the output, so they must fit into 64
bits, as they do if the text of the source is not longer than that.
-/

set_option autoImplicit false

namespace SoftRules

/-! Penalties. -/

structure Penalty.IsProper (penalty : Penalty) : Prop where
  index : penalty.index.IsProper
  globals : penalty.globals.IsProper
  mark : penalty.mark.IsProper
  weight : penalty.weight.IsProper
  priority : Number.fitsInt64 penalty.priority = true

theorem Weight.isProper_toTerm (weight : Weight) : weight.toTerm.IsProper := by
  apply Term.isProper_number
  have ordered : Number.minInt64 ≤ Number.maxInt64 := by decide
  rw [Weight.toInteger, Number.fitsInt64, Bool.and_eq_true]
  refine ⟨decide_eq_true (Int.le_max_left ..), decide_eq_true (Int.max_le.mpr ⟨ordered, ?_⟩)⟩
  exact Int.min_le_left ..

section Penalties

variable {index : Nat} {profile : Profile} {penalty : Penalty} {head : Head} {notHead : Literal}
  {body : List BodyElement}

theorem Penalty.isProper_ofProfile (fits : Number.fitsInt64 index = true)
    (proper : profile.IsProper) : (Penalty.ofProfile index profile).IsProper := by
  have indexProper := Term.isProper_number fits
  have globalsProper := Term.isProper_globals proper.globals
  rw [Penalty.ofProfile]
  cases profile.weight with
  | hard => exact ⟨indexProper, globalsProper, ⟨rfl, rfl⟩, ⟨rfl, rfl⟩, rfl⟩
  | soft weight =>
      exact ⟨indexProper, globalsProper, weight.isProper_toTerm, weight.isProper_toTerm, rfl⟩

theorem Penalty.IsProper.weakConstraint (proper : penalty.IsProper) (nonempty : body ≠ [])
    (bodyProper : ∀ element ∈ body, element.IsProper) (origin : Origin) :
    (penalty.weakConstraint body origin).IsProper := by
  refine Statement.isProper_weakConstraint nonempty bodyProper ?_ origin
  simp only [List.forall_mem_cons, List.not_mem_nil, false_implies, implies_true, and_true]
  exact ⟨proper.weight, Term.isProper_number proper.priority, proper.index, proper.globals⟩

theorem Penalty.IsProper.violation (proper : penalty.IsProper) :
    ∃ term, penalty.violation = .predicate term ∧ term.isAtom = true ∧ term.IsProper := by
  refine ⟨_, rfl, rfl, ?_, ?_⟩
  · simp only [Term.isLexical, Term.areLexical, proper.index.1, proper.mark.1, proper.globals.1]
    decide
  · simp only [Term.isPlain, Term.arePlain, proper.index.2, proper.mark.2, proper.globals.2]
    decide

theorem Head.isProper_negation (proper : head.IsProper) (negated : head.negation? = some notHead) :
    notHead.IsProper := by
  cases head with
  | literal content =>
      cases negated
      obtain ⟨sign, atom, origin⟩ := content
      exact proper.literal
  | aggregate content =>
      rw [Head.negation?] at negated
      split at negated
      · cases negated
        exact proper
      · cases negated
  | theory content => cases negated

theorem Head.isProper_choice {choice : Aggregate Literal} (proper : head.IsProper)
    (chosen : head.choice? = some choice) : (Head.aggregate choice).IsProper := by
  cases head with
  | literal content =>
      rw [Head.choice?] at chosen
      split at chosen
      · cases chosen
      · cases chosen
        obtain ⟨isLexical, isPlain⟩ := proper.literal
        refine ⟨?_, ?_⟩
        · simp [Head.isLexical, Aggregate.choice, Aggregate.isLexical, Guard.isLexical,
            Conditional.areLexical, Conditional.isLexical, Literal.areLexical, isLexical]
        · simp [Head.isPlain, Aggregate.choice, Aggregate.isPlain, Guard.isPlain,
            Conditional.arePlain, Conditional.isPlain, Literal.arePlain, isPlain]
  | aggregate content =>
      cases chosen
      obtain ⟨left, elements, right, origin⟩ := content
      obtain ⟨lexical, plain⟩ := proper
      simp only [Head.isLexical, Aggregate.isLexical, Bool.and_eq_true] at lexical
      simp only [Head.isPlain, Aggregate.isPlain, Bool.and_eq_true] at plain
      refine ⟨?_, ?_⟩
      · simp [Head.isLexical, Aggregate.choice, Aggregate.isLexical, Guard.isLexical, lexical.1.2]
      · simp [Head.isPlain, Aggregate.choice, Aggregate.isPlain, Guard.isPlain, plain.1.2]
  | theory content => cases chosen

theorem ProfiledRule.isProper_expansion {rule : ProfiledRule} (proper : rule.IsProper)
    (nonempty : rule.body ≠ []) (fits : Number.fitsInt64 index = true) (mode : Mode)
    (origin : Origin) :
    ∀ statement ∈ rule.expansion mode index origin, statement.IsProper := by
  intro statement member
  have penaltyProper := Penalty.isProper_ofProfile fits proper.profile
  obtain ⟨term, isViolation, isAtom, termProper⟩ := penaltyProper.violation
  have mark (sign : Sign) (origin : Origin) :
      (Literal.mk sign (Penalty.ofProfile index rule.profile).violation origin).IsProper := by
    rw [isViolation]
    exact Literal.isProper_predicate isAtom termProper sign none origin
  have behind {content : Literal} (isProper : content.IsProper) :
      ∀ element ∈ BodyElement.literal content :: rule.body, element.IsProper :=
    List.forall_mem_cons.mpr ⟨BodyElement.isProper_literal isProper, proper.body⟩
  have switched {switch body : List BodyElement}
      (isSwitch : ∀ element ∈ switch, element = .literal (switchLiteral rule.head.origin))
      (bodyProper : ∀ element ∈ body, element.IsProper) :
      ∀ element ∈ switch ++ body, element.IsProper := by
    rw [List.forall_mem_append]
    refine ⟨fun element inSwitch => ?_, bodyProper⟩
    rw [isSwitch element inSwitch]
    exact ⟨by rfl, by rfl⟩
  cases ProfiledRule.emits_of_mem member with
  | kept unguarded => exact Statement.isProper_rule proper.head proper.body origin
  | @violation notHead negation marked =>
      have violated := Head.isProper_predicate isAtom termProper .plain none notHead.origin
      rw [Literal.positive, isViolation]
      exact Statement.isProper_rule violated
        (behind (Head.isProper_negation proper.head negation)) origin
  | unviolated negation marked =>
      exact Statement.isProper_rule proper.head (behind (mark .negated _)) origin
  | markPenalty negation marked =>
      refine penaltyProper.weakConstraint (List.cons_ne_nil _ _) ?_ origin
      exact List.forall_mem_singleton.mpr (BodyElement.isProper_literal (mark .plain _))
  | choice open' compact =>
      exact Statement.isProper_rule (Head.isProper_choice proper.head open') proper.body origin
  | penalty negation compact isSwitch =>
      refine penaltyProper.weakConstraint (by simp) ?_ origin
      exact switched isSwitch (behind (Head.isProper_negation proper.head negation))
  | closedPenalty negation closed compact isSwitch =>
      refine penaltyProper.weakConstraint (by simp [nonempty]) ?_ origin
      exact switched isSwitch proper.body

end Penalties

/-! P-log annotations. -/

namespace Plog

variable {remark : TheoryAtom} {element : Element Literal} {body : List BodyElement}

/-- The parts of an element that is encoded. -/
structure IsProperElement (element : Element Literal) (atom : Term) : Prop where
  isAtom : atom.isAtom = true
  atom : atom.IsProper
  condition : ∀ literal ∈ element.condition, literal.IsProper

theorem isProper_element (proper : remark.IsProper) (member : element ∈ remark.elements)
    {atom : Term} (isAtom : (elementAtom remark element).result = .ok atom) :
    IsProperElement element atom := by
  obtain ⟨remarkLexical, remarkPlain⟩ := proper
  simp only [TheoryAtom.isLexical, Bool.and_eq_true, Element.areLexical_iff] at remarkLexical
  simp only [TheoryAtom.isPlain, Bool.and_eq_true, Element.arePlain_iff] at remarkPlain
  have lexical := remarkLexical.1.2 element member
  have plain := remarkPlain.1.2 element member
  obtain ⟨single, valid⟩ := elementAtom_ok isAtom
  obtain ⟨terms, condition⟩ := element
  cases single
  simp only [Element.isLexical, Bool.and_eq_true, Term.areLexical_iff,
    Literal.areLexical_iff] at lexical
  simp only [Element.isPlain, Bool.and_eq_true, Term.arePlain_iff, Literal.arePlain_iff] at plain
  refine ⟨valid, ⟨?_, ?_⟩, ?_⟩
  · exact lexical.1.2 _ (List.mem_singleton_self _)
  · exact plain.1 _ (List.mem_singleton_self _)
  · exact fun literal member => ⟨lexical.2 literal member, plain.2 literal member⟩

theorem isProper_selection {choices : List (Conditional Literal)}
    (proper : ∀ choice ∈ choices, choice.isLexical = true ∧ choice.isPlain = true) :
    (Head.aggregate (selection remark choices)).IsProper := by
  have areLexical := (Conditional.areLexical_iff choices).mpr fun choice member =>
    (proper choice member).1
  have arePlain := (Conditional.arePlain_iff choices).mpr fun choice member =>
    (proper choice member).2
  refine ⟨?_, ?_⟩
  · simp only [Head.isLexical, selection, Aggregate.isLexical, areLexical]
    rfl
  · simp only [Head.isPlain, selection, Aggregate.isPlain, arePlain]
    rfl

theorem isProper_choice {atom : Term} (parts : IsProperElement element atom) :
    (choice remark element atom).isLexical = true ∧ (choice remark element atom).isPlain = true := by
  have literal := Literal.isProper_predicate parts.isAtom parts.atom .plain none remark.origin
  refine ⟨?_, ?_⟩
  · simp only [choice, Conditional.isLexical, Bool.and_eq_true, Literal.areLexical_iff]
    exact ⟨literal.1, fun literal member => (parts.condition literal member).1⟩
  · simp only [choice, Conditional.isPlain, Bool.and_eq_true, Literal.arePlain_iff]
    exact ⟨literal.2, fun literal member => (parts.condition literal member).2⟩

theorem isProper_penalty {weight : Weight} {atom : Term} (parts : IsProperElement element atom)
    (bodyProper : ∀ element ∈ body, element.IsProper) :
    (Statement.weakConstraint (penalty weight remark body element atom)).IsProper := by
  have globalsProper : (Term.tuple ((bodyVariables body).map .var)).IsProper := by
    apply Term.isProper_globals
    intro x member
    rcases mem_foldl_addVariable member with isKnown | ⟨isMet, -⟩
    · cases isKnown
    · obtain ⟨element, isElement, isVariable⟩ := List.mem_flatMap.mp isMet
      exact BodyElement.vars_lexical (bodyProper element isElement).1 x isVariable
  have literal := Literal.isProper_predicate parts.isAtom parts.atom .negated none remark.origin
  refine Statement.isProper_weakConstraint (by simp) ?_ ?_ remark.origin
  · rw [List.forall_mem_append, List.forall_mem_map, List.forall_mem_cons]
    exact ⟨⟨literal, parts.condition⟩, bodyProper⟩
  · simp only [List.forall_mem_cons, List.not_mem_nil, false_implies, implies_true, and_true]
    exact ⟨weight.isProper_toTerm, ⟨rfl, rfl⟩, ⟨by decide, by decide⟩, parts.atom, globalsProper⟩

theorem isProper_observed {atom : Term} (parts : IsProperElement element atom) (value : Bool) :
    (Statement.rule (observed value remark element atom)).IsProper := by
  have literal (sign : Sign) :=
    Literal.isProper_predicate parts.isAtom parts.atom sign none remark.origin
  have condition : ∀ other ∈ element.condition.map BodyElement.literal, other.IsProper :=
    List.forall_mem_map.mpr parts.condition
  unfold observed
  simp only
  split
  · exact Statement.isProper_rule
      (Head.isProper_predicate parts.isAtom parts.atom .plain none remark.origin) condition _
  · split
    · refine Statement.isProper_constraint (List.forall_mem_cons.mpr ⟨?_, condition⟩) _
      exact BodyElement.isProper_literal (literal .negated)
    · refine Statement.isProper_constraint (List.forall_mem_cons.mpr ⟨?_, condition⟩) _
      exact BodyElement.isProper_literal (literal .plain)

theorem Encoded.isProper {treatment : Treatment} {statements : List Statement}
    (encoded : Encoded remark body treatment statements) (proper : remark.IsProper)
    (bodyProper : ∀ element ∈ body, element.IsProper) :
    ∀ statement ∈ statements, statement.IsProper := by
  cases encoded with
  | random chosen =>
      refine List.forall_mem_singleton.mpr (Statement.isProper_rule ?_ bodyProper _)
      refine isProper_selection fun found member => ?_
      obtain ⟨element, isElement, atom, isAtom, rfl⟩ := exists_of_forall₂ chosen found member
      exact isProper_choice (isProper_element proper isElement isAtom)
  | probability nonempty charged =>
      intro statement member
      obtain ⟨element, isElement, atom, isAtom, rfl⟩ := exists_of_forall₂ charged statement member
      exact isProper_penalty (isProper_element proper isElement isAtom) bodyProper
  | observation other stated =>
      intro statement member
      obtain ⟨element, isElement, atom, isAtom, rfl⟩ := exists_of_forall₂ stated statement member
      exact isProper_observed (isProper_element proper isElement isAtom) _

end Plog

/-! Sessions. -/

namespace Session

variable {session after : Session} {source : Rule} {statements : List Statement}

theorem isProper_forbidden {rule : ProfiledRule} {forbidden : Literal} (proper : rule.IsProper)
    (forbids : rule.forbidden.result = .ok forbidden) : forbidden.IsProper := by
  obtain ⟨headProper, -, profileProper⟩ := proper
  rw [ProfiledRule.forbidden] at forbids
  cases isEvidence : rule.profile.evidence with
  | some literal =>
      rw [isEvidence] at forbids
      cases forbids
      exact profileProper.evidence _ isEvidence
  | none =>
      rw [isEvidence] at forbids
      cases isHead : rule.head with
      | literal literal =>
          rw [isHead] at forbids headProper
          cases forbids
          exact headProper.literal
      | aggregate content =>
          rw [isHead] at forbids
          cases forbids
      | theory content =>
          rw [isHead] at forbids
          cases forbids

theorem RuleStep.isProper (step : session.RuleStep source statements after)
    (standard : ∃ power, session.plog = .standard power)
    (fits : Number.fitsInt64 session.index = true) (proper : (Statement.rule source).IsProper) :
    ∀ statement ∈ statements, statement.IsProper := by
  cases step with
  | fact => exact List.forall_mem_singleton.mpr proper
  | query => exact List.forall_mem_singleton.mpr proper
  | kept => exact List.forall_mem_singleton.mpr proper
  | evidence fresh profiled treated forbids =>
      have forbiddenProper := isProper_forbidden (Rule.profile_isProper proper profiled) forbids
      refine List.forall_mem_singleton.mpr (Statement.isProper_constraint ?_ _)
      exact List.forall_mem_singleton.mpr (BodyElement.isProper_literal forbiddenProper)
  | plog fresh profiled treated special converted nonempty =>
      obtain ⟨headProper, bodyProper, -⟩ := Rule.profile_isProper proper profiled
      obtain ⟨remark, isHead, -, encoded⟩ := encodePlog_ok standard converted
      rw [isHead] at headProper
      exact encoded.isProper headProper bodyProper
  | encoded fresh profiled untreated on plain =>
      have nonempty : source.body ≠ [] := fun isEmpty =>
        fresh ⟨(Rule.head_of_untreated profiled untreated).2, isEmpty⟩
      obtain ⟨middle, head, body⟩ := Rule.profile_ok profiled
      exact ProfiledRule.isProper_expansion (Rule.profile_isProper proper profiled)
        (body.ne_nil nonempty) fits session.mode source.origin

theorem RuleStep.next_or_same (step : session.RuleStep source statements after) :
    after = session ∨ after = session.next := by
  cases step with
  | fact => exact .inl rfl
  | query => exact .inl rfl
  | evidence => exact .inl rfl
  | plog => exact .inl rfl
  | kept => exact .inr rfl
  | encoded => exact .inr rfl

theorem Steps.isProper {program output : Program} (steps : session.Steps program output after)
    (standard : ∃ power, session.plog = .standard power)
    (fits : (session.index + program.length : Int) ≤ Number.maxInt64)
    (proper : ∀ statement ∈ program, statement.IsProper) :
    ∀ statement ∈ output, statement.IsProper := by
  induction steps with
  | nil session => exact proper
  | @rule session middle after source program rest statements step others inductionHypothesis =>
      obtain ⟨sourceProper, programProper⟩ := List.forall_mem_cons.mp proper
      have indexFits : Number.fitsInt64 session.index = true := by
        have least : Number.minInt64 ≤ 0 := by decide
        simp only [Number.fitsInt64, Bool.and_eq_true, decide_eq_true_eq]
        omega
      rw [List.forall_mem_append]
      refine ⟨step.isProper standard indexFits sourceProper, ?_⟩
      rw [List.length_cons] at fits
      rcases step.next_or_same with rfl | rfl
      · exact inductionHypothesis standard (by omega) programProper
      · refine inductionHypothesis standard ?_ programProper
        simp only [Session.next]
        omega
  | @other session after statement program rest other others inductionHypothesis =>
      obtain ⟨statementProper, programProper⟩ := List.forall_mem_cons.mp proper
      refine List.forall_mem_cons.mpr ⟨statementProper, ?_⟩
      rw [List.length_cons] at fits
      exact inductionHypothesis standard (by omega) programProper

end Session

theorem Program.isProper_encode {mode : Mode} {source target : Program}
    (fits : (source.length : Int) ≤ Number.maxInt64) (lexical : source.isLexical = true)
    (plain : source.isPlain = true) (encoded : (source.encode mode).result = .ok target) :
    target.isLexical = true ∧ target.isPlain = true := by
  obtain ⟨after, steps⟩ := Program.encode_ok_iff.mp encoded
  have proper : ∀ statement ∈ source, statement.IsProper := fun statement member =>
    ⟨List.all_eq_true.mp lexical statement member, List.all_eq_true.mp plain statement member⟩
  have areProper := steps.isProper ⟨mode.power, rfl⟩ (by simpa using fits) proper
  refine ⟨List.all_eq_true.mpr ?_, List.all_eq_true.mpr ?_⟩
  · exact fun statement member => (areProper statement member).1
  · exact fun statement member => (areProper statement member).2

/-- The text of the output is read as the output, if the source is plain. The bound on the length
of the source keeps the indices of its rules in the range of the integers of the output, and no
text in memory is longer. -/
theorem Program.parse_render_encode {text : List Char} {source target : Program} {mode : Mode}
    (short : (text.length : Int) ≤ Number.maxInt64) (accepted : Program.parse text = .ok source)
    (plain : source.isPlain = true) (encoded : (source.encode mode).result = .ok target) :
    ∃ found, Program.parse target.render.toList = .ok found ∧ found.same target = true ∧
      found.render = target.render := by
  have fits : (source.length : Int) ≤ Number.maxInt64 := by
    have least := Program.length_le_of_parse accepted
    omega
  have lexical := Program.isLexical_of_parse accepted
  obtain ⟨targetLexical, targetPlain⟩ := Program.isProper_encode fits lexical plain encoded
  have faithful := Program.isFaithful_of_isPlain targetLexical targetPlain
  obtain ⟨found, reread, sameErased⟩ := Program.parse_render targetLexical faithful
  have same := (Program.same_iff found target).mpr sameErased
  exact ⟨found, reread, same, Program.render_eq_of_same same⟩

/-- A directive, an observation and a negated aggregate under a bounded choice. -/
def Program.assorted : List Char :=
  "#show p/1. &obs { -q(1) : r } = false. 1 { p(X) : q(X) } :- not -3 < #sum { X,a : q(X) }, s.".toList

theorem Program.parse_render_encode_assorted :
    ∃ source target found, Program.parse Program.assorted = .ok source ∧ source.isPlain = true ∧
      (source.encode { encodeHard := true, markViolations := true }).result = .ok target ∧
      Program.parse target.render.toList = .ok found ∧ found.same target = true ∧
        found.render = target.render := by
  have succeeds : (match Program.parse Program.assorted with
      | .ok source => source.isPlain &&
          (source.encode { encodeHard := true, markViolations := true }).result.isOk
      | .error _ => false) = true := by
    decide +kernel
  cases accepted : Program.parse Program.assorted with
  | error error =>
      rw [accepted] at succeeds
      cases succeeds
  | ok source =>
      simp only [accepted, Bool.and_eq_true] at succeeds
      obtain ⟨plain, isOk⟩ := succeeds
      cases encoded : (source.encode { encodeHard := true, markViolations := true }).result with
      | error error =>
          rw [encoded] at isOk
          cases isOk
      | ok target =>
          have short : (Program.assorted.length : Int) ≤ Number.maxInt64 := by decide
          obtain ⟨found, reread, same, sameText⟩ :=
            Program.parse_render_encode short accepted plain encoded
          exact ⟨source, target, found, rfl, plain, encoded, reread, same, sameText⟩

end SoftRules
