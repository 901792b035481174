import SoftRules.Proofs.Grammar.ExactLiteral
import SoftRules.Proofs.Grammar.Statement

/-!
Only faithful programs are read as they were written.

The parts of a statement are followed from left to right, as those of a literal are. For a head this
is not enough: a head `#false` is not written in front of a body, and a negated aggregate is a
literal only if it is not taken for an aggregate with a bound before.

The main statement is `Program.parse_render_iff`: an accepted program is read back from its text if
and only if it is faithful.
-/

set_option autoImplicit false

namespace SoftRules.Grammar

open SoftRules.Parser

/-! Theory atoms. -/

section TheoryAtoms

variable {text : List Char} {spaced : Bool}

theorem requires_theoryElements {elements : List (Element Literal)}
    (lexical : Element.areLexical elements = true) (rest : List Char) :
    (optional do
      space
      braced (separated (spacedToken ";") (element literal))).Requires
      (TheoryAtom.writeElements elements rest)
      (fun found => Element.eraseAll (found.getD []) = Element.eraseAll elements)
      (Element.areFaithful elements = true) := by
  by_cases empty : elements = []
  · subst empty
    exact fun _ _ _ _ _ => rfl
  · simp only [TheoryAtom.writeElements, List.isEmpty_eq_false_iff.mpr empty, Bool.false_eq_true,
      if_false]
    have opening : Solid (SoftRules.writeElements Element.write elements rest) :=
      solid_cons (by decide) (by decide)
    refine .optional (.after opening.reads_blank fun _ _ =>
      (elementsAreExact elements lexical).requires lexical rest) fun same => ?_
    rw [Element.eraseAll_eq, Element.eraseAll_eq] at same
    exact absurd (List.map_eq_nil_iff.mp same.symm) empty

theorem requires_theoryAtom {content : TheoryAtom} (lexical : content.isLexical = true)
    (closes : Closes text) :
    theoryAtom.Requires (content.write (gap spaced ++ text)) (·.erase = content.erase)
      (content.isFaithful = true) := by
  simp only [TheoryAtom.isLexical, Bool.and_eq_true] at lexical
  obtain ⟨⟨⟨validName, lexicalArguments⟩, lexicalElements⟩, lexicalGuard⟩ := lexical
  have readsArguments := reads_theoryArguments (allRead_of_areLexical _ lexicalArguments)
    (@ends_arguments text spaced content.elements content.guard closes).2
  have readsElements (faithful : Element.areFaithful content.elements = true) :=
    @reads_theoryElements text spaced content.elements
      (elementsAreRead content.elements lexicalElements faithful) lexicalElements content.guard closes
  rw [TheoryAtom.write_eq]
  refine .located (.expecting _ (.after (.char _ _) fun _ _ =>
    .after (reads_name validName (endsName_theory content closes)) ?_))
  rintro _ rfl
  refine .after readsArguments fun arguments sameArguments =>
    .bind (requires_theoryElements lexicalElements _) readsElements ?_ ?_
  · refine fun elements _ => .after fun _ _ => .pure ?_
    rintro ⟨_, same⟩
    simp only [Located.relocate, TheoryAtom.erase, TheoryAtom.mk.injEq] at same
    exact same.2.2.1
  · refine fun faithful elements _ => .after (reads_theoryGuard lexicalGuard closes) ?_
    refine fun guard sameGuard => .pure ?_
    rintro ⟨_, same⟩
    simp only [Located.relocate, TheoryAtom.erase, TheoryAtom.mk.injEq, sameGuard, Term.eraseAll_eq,
      sameArguments, ← Term.rereadAll_eq] at same
    obtain ⟨-, sameArguments, -, sameGuard, -⟩ := same
    rw [← Term.eraseAll_eq] at sameArguments
    rw [TheoryAtom.isFaithful, faithful, (Term.rereadAll_eq_eraseAll_iff _).mp sameArguments,
      (Guard.reread_eq_erase_iff _).mp sameGuard]
    rfl

end TheoryAtoms

/-! Bodies. -/

section Bodies

variable {text : List Char}

/-- A literal is read together with the condition that it might have. -/
theorem requires_bodyElement_conditional {content : Conditional Literal}
    (lexical : content.isLexical = true) (closes : Closes text) :
    bodyElement.Requires (content.write text) (fun found => found.erase =
      if content.condition.isEmpty then .literal content.literal.erase
      else .conditional content.erase) (content.isFaithful false = true) := by
  have noTheory : theoryAtom.Rejects (content.write text) :=
    rejects_theoryAtom ((startsLiteral_conditional lexical text).head_ne (by decide))
  obtain ⟨first, condition, origin⟩ := content
  have lexicalParts := lexical
  simp only [Conditional.isLexical, Bool.and_eq_true] at lexicalParts
  have requires := @requires_conditional text false ⟨first, condition, origin⟩ lexical
    (isExact_of_isLexical first _ lexicalParts.1)
    (areExact_of_areLexical condition _ lexicalParts.2) closes
  refine .expecting _ (.firstOf ⟨Rejects.requires (.bind noTheory), requires.map ?_⟩)
  rintro ⟨foundFirst, foundCondition, _⟩ same
  simp only [Conditional.erase, Conditional.mk.injEq, and_true, Literal.eraseAll_eq] at same ⊢
  split at same
  · next foundEmpty =>
      split at same
      · next empty =>
          rw [BodyElement.erase, BodyElement.literal.injEq] at same
          rw [List.isEmpty_iff.mp foundEmpty, List.isEmpty_iff.mp empty]
          exact ⟨same, rfl⟩
      · cases same
  · split at same
    · cases same
    · simp only [BodyElement.erase, BodyElement.conditional.injEq, Conditional.erase,
        Conditional.mk.injEq, and_true, Literal.eraseAll_eq] at same
      exact same

theorem requires_bodyElement {content : BodyElement} (lexical : content.isLexical = true)
    (closes : Closes text) :
    bodyElement.Requires (content.write text) (·.erase = content.erase)
      (content.isFaithful = true) := by
  cases content with
  | literal content =>
      have unconditional : (⟨content, [], none⟩ : Conditional Literal).write text =
          content.write text := by rw [Conditional.write_eq, writeCondition_nil]
      have requires := @requires_bodyElement_conditional text ⟨content, [], none⟩
        (by simpa [Conditional.isLexical, Literal.areLexical, BodyElement.isLexical] using lexical)
        closes
      rw [unconditional] at requires
      refine requires.imp fun faithful => ?_
      simpa [Conditional.isFaithful, Literal.areFaithful, BodyElement.isFaithful] using faithful
  | conditional content =>
      simp only [BodyElement.isLexical, Bool.and_eq_true, Bool.not_eq_true'] at lexical
      have requires := requires_bodyElement_conditional lexical.2 closes
      simp only [lexical.1, Bool.false_eq_true, if_false] at requires
      exact requires
  | theory content =>
      have requires := @requires_theoryAtom text false content lexical closes
      refine .expecting _ (.firstOf ⟨requires.map fun found same => ?_, requires_of_other fun _ =>
        .after fun _ _ => .pure fun same => ?_⟩)
      · rwa [BodyElement.erase, BodyElement.erase, BodyElement.theory.injEq] at same
      · split at same <;> cases same

theorem requiresRow_body {body : List BodyElement} (nonempty : body ≠ [])
    (lexical : body.all BodyElement.isLexical = true) (closes : Closes ('.' :: text)) :
    RequiresRow bodyElement (firstOf [spacedToken ",", spacedToken ";"])
      (fun content found => found.erase = content.erase) body (writeBody body ('.' :: text))
      (body.all BodyElement.isFaithful = true) := by
  induction body with
  | nil => exact absurd rfl nonempty
  | cons first others inductionHypothesis =>
      simp only [List.all_cons, Bool.and_eq_true] at lexical
      cases others with
      | nil =>
          refine .last ((requires_bodyElement lexical.1 closes).imp fun faithful => ?_)
          rw [List.all_cons, faithful]
          rfl
      | cons second others =>
          rw [writeBody_cons]
          have solid := solid_writeBody (List.cons_ne_nil second others) lexical.2 ('.' :: text)
          have behind : Closes (first.separator ++ writeBody (second :: others) ('.' :: text)) := by
            rw [BodyElement.separator]
            split <;> exact closes_cons (by decide) (by decide) _
          refine .cons (requires_bodyElement lexical.1 behind) (fun faithful =>
            isRead_bodyElement lexical.1 faithful _ behind ?_ ?_) (reads_separator first solid)
            (inductionHypothesis (by simp) lexical.2) fun faithful othersFaithful => ?_
          · rw [BodyElement.separator]
            split <;> simp
          · intro conditional
            simp [BodyElement.separator, conditional]
          · rw [List.all_cons, faithful, othersFaithful]
            rfl

theorem requires_body {content : List BodyElement} (nonempty : content ≠ [])
    (lexical : content.all BodyElement.isLexical = true) (closes : Closes ('.' :: text)) :
    body.Requires (writeBody content ('.' :: text))
      (fun found => found.map BodyElement.erase = content.map BodyElement.erase)
      (content.all BodyElement.isFaithful = true) :=
  fun offset => ((requiresRow_body nonempty lexical closes).separated1 offset).imp
    fun _ _ requires same => requires (forall₂_of_map_eq same)

end Bodies

/-! Heads. -/

section Heads

variable {text : List Char} {spaced : Bool}

/-- A negated aggregate that may be taken for an aggregate with a bound is taken for one. -/
theorem reads_aggregate_negated {content : Atom Literal} (lexical : content.isLexical = true)
    (faithful : content.isFaithful = true) (absorbs : content.absorbsNegation = true)
    (closes : Closes text) :
    (aggregate literal).Reads ("not ".toList ++ content.write (gap spaced ++ text))
      (gap spaced ++ text) fun _ => True := by
  cases content with
  | aggregate content =>
      obtain ⟨left, elements, right, origin⟩ := content
      simp only [Atom.isLexical, Aggregate.isLexical, Bool.and_eq_true] at lexical
      simp only [Atom.isFaithful, Aggregate.isFaithful, Bool.and_eq_true] at faithful
      have readsElements := (conditionalsAreRead elements lexical.1.2 faithful.1.2).reads
        lexical.1.2 (Guard.writeRight right (gap spaced ++ text))
      have opening : Solid (writeElements Conditional.write elements
          (Guard.writeRight right (gap spaced ++ text))) := solid_cons (by decide) (by decide)
      rw [Atom.write_aggregate]
      cases left with
      | none =>
          have word := @reads_word (writeElements Conditional.write elements
            (Guard.writeRight right (gap spaced ++ text))) opening
            (by simp [writeElements, isOperatorStart]) (by simp [writeElements])
          have leading := reads_leadingGuard_bare true word opening
            (by simp [isRelationStart])
          exact (reads_aggregate_parts leading readsElements lexical.2 closes).imp
            fun _ _ => trivial
      | some guard =>
          simp only [Atom.absorbsNegation, Option.all_some] at absorbs
          have leading := reads_leadingGuard_relation guard.relation true true
            (reads_word_difference lexical.1.1 absorbs (endsTerm_spaced_relation guard.relation _))
            opening (by simp [gap])
          simp only [Guard.writeLeft_some]
          exact (reads_aggregate_parts leading readsElements lexical.2 closes).imp
            fun _ _ => trivial
  | _ => cases absorbs

theorem requires_head_literal {content : Literal}
    (lexical : (Head.literal content).isLexical = true)
    (visible : (spaced && (Head.literal content).isFalse) = false) (closes : Closes text) :
    head.Requires (content.write (gap spaced ++ text)) (·.erase = Head.erase (.literal content))
      ((Head.literal content).isFaithful spaced = true) := by
  have isLexical := (Head.isLexical_literal lexical).1
  have noTheory := rejects_theoryAtom
    ((startsLiteral_literal isLexical (gap spaced ++ text)).head_ne (by decide))
  intro offset
  refine .expecting _ (.firstOf ⟨Rejects.answers (.bind noTheory) offset, fun _ =>
    ⟨.after fun _ _ => .pure (by rintro ⟨⟩), fun noAggregate =>
      ⟨.bind (isExact_of_isLexical content spaced isLexical text closes offset) ?_,
        fun _ => trivial⟩⟩⟩)
  refine fun found _ requires => .pure fun same => ?_
  rw [Head.erase, Head.erase, Head.literal.injEq] at same
  have faithful := requires same
  -- The alternative for aggregates comes before the one for literals, and it has been refused.
  have unabsorbed : content.sign = .negated → content.atom.absorbsNegation = false := by
    obtain ⟨sign, atom, origin⟩ := content
    rintro rfl
    simp only [Literal.isFaithful, Bool.and_eq_true] at faithful
    rw [Bool.eq_false_iff]
    intro absorbs
    rw [Literal.write_eq] at noAggregate
    exact (reads_aggregate_negated isLexical faithful.2 absorbs closes).not_rejectsAt
      noAggregate.of_map
  rw [Head.isFaithful, faithful]
  simp only [Head.isFalse, Bool.and_eq_false_iff] at visible
  by_cases negated : content.sign = .negated
  · rcases visible with visible | visible <;> simp [visible, unabsorbed negated]
  · rcases visible with visible | visible <;> simp [visible, negated]

theorem requires_head {content : Head} (lexical : content.isLexical = true)
    (visible : (spaced && content.isFalse) = false) (closes : Closes text) :
    head.Requires (content.write (gap spaced ++ text)) (·.erase = content.erase)
      (content.isFaithful spaced = true) := by
  cases content with
  | literal content => exact requires_head_literal lexical visible closes
  | aggregate content =>
      have lexicalAtom : (Atom.aggregate content).isLexical = true := by
        rw [Atom.isLexical]
        exact lexical
      have lexicalElements : Conditional.areLexical content.elements = true := by
        obtain ⟨left, elements, right, origin⟩ := content
        simp only [Head.isLexical, Aggregate.isLexical, Bool.and_eq_true] at lexical
        exact lexical.1.2
      have requires := @requires_aggregate text spaced content lexical
        (conditionalsAreExact content.elements lexicalElements) closes
      have noTheory := rejects_theoryAtom
        ((startsLiteral_atom lexicalAtom (gap spaced ++ text)).head_ne (by decide))
      rw [Head.write_aggregate]
      refine .expecting _ (.firstOf ⟨Rejects.requires (.bind noTheory),
        requires.map fun found same => ?_,
        requires_of_other fun _ => .after fun _ _ => .pure (by rintro ⟨⟩)⟩)
      rwa [Head.erase, Head.erase, Head.aggregate.injEq] at same
  | theory content =>
      refine .expecting _ (.firstOf ⟨(requires_theoryAtom lexical closes).map fun found same => ?_,
        requires_of_other fun _ => .after fun _ _ => .pure (by rintro ⟨⟩),
        requires_of_other fun _ => .after fun _ _ => .pure (by rintro ⟨⟩)⟩)
      rwa [Head.erase, Head.erase, Head.theory.injEq] at same

theorem rejects_head {text : List Char}
    (noTerm : ∀ first ∈ text.head?, isTermStart first = false) (noTheory : '&' ∉ text.head?)
    (noHash : '#' ∉ text.head?) (noBrace : '\x7b' ∉ text.head?) : head.Rejects text := by
  have noAggregate : (aggregate literal).Rejects text :=
    rejects_aggregate (reads_leadingGuard_none noTerm) noBrace
  exact .expecting _ (rejects_firstOf (.cons (.bind (rejects_theoryAtom noTheory))
    (.cons (.bind noAggregate) (.cons (.bind (rejects_literal noTerm noHash noBrace)) .nil))))

theorem rejects_head_colon (rest : List Char) : head.Rejects (':' :: rest) :=
  rejects_head (by simp [isTermStart]) (by simp) (by simp) (by simp)

/-- The head that is left out in front of a body has no sign. -/
theorem Head.isFaithful_of_erase {content : Head}
    (same : Head.erase (.literal (.boolean false)) = content.erase) :
    content.isFaithful true = true := by
  cases content with
  | literal content =>
      obtain ⟨sign, atom, origin⟩ := content
      simp only [Head.erase, Literal.boolean, Literal.erase, Head.literal.injEq, Literal.mk.injEq,
        Atom.erase, and_true] at same
      obtain ⟨rfl, same⟩ := same
      cases atom with
      | boolean value origin =>
          rw [Atom.erase, Atom.boolean.injEq] at same
          obtain ⟨rfl, -⟩ := same
          simp [Head.isFaithful, Literal.isFaithful, Atom.isFaithful, Atom.render, startsNegation,
            List.isPrefixOf]
      | _ => simp [Atom.erase] at same
  | aggregate content => cases same
  | theory content => cases same

end Heads

/-! Statements. -/

section Statements

variable {text rest : List Char}

theorem requires_rule_parts {content : Rule} {condition : Prop} (noWeight : weight.Rejects text)
    (requires : headAndBody.Requires text (fun found => found.1.erase = content.head.erase ∧
      found.2.map BodyElement.erase = content.body.map BodyElement.erase) condition) :
    rule.Requires text (·.erase = content.erase) condition := by
  refine .located (.expecting _ (.after (.optional_none (.bind noWeight)) ?_))
  rintro _ rfl offset
  refine .bind (requires offset) ?_
  rintro ⟨head, body⟩ _ holds
  refine .after fun _ _ => .after fun _ _ => .pure ?_
  rintro ⟨_, same⟩
  simp only [Located.relocate, Rule.erase, Option.map_none, Option.toList_none, List.append_nil,
    Rule.mk.injEq] at same
  exact holds ⟨same.1, same.2.1⟩

/-- Without a body, the head is all that there is. -/
theorem requires_fact {content : Head} (lexical : content.isLexical = true)
    (closes : Closes ('.' :: rest)) :
    headAndBody.Requires (content.write ('.' :: rest)) (·.1.erase = content.erase)
      (content.isFaithful false = true) := by
  have requires := @requires_head ('.' :: rest) false content lexical rfl closes
  refine .firstOf ⟨Rejects.requires (.bind (rejects_arrow (head_ne_colon lexical _))),
    fun offset => ?_⟩
  exact .bind (requires offset) fun found _ faithful => .after fun _ _ => .pure faithful

/-- A head that is left out is read as `#false`. -/
theorem requires_constraint {content : Head} {elements : List BodyElement}
    (nonempty : elements ≠ []) (lexical : elements.all BodyElement.isLexical = true)
    (closes : Closes ('.' :: rest)) :
    headAndBody.Requires (':' :: '-' :: ' ' :: writeBody elements ('.' :: rest))
      (fun found => found.1.erase = content.erase ∧
        found.2.map BodyElement.erase = elements.map BodyElement.erase)
      (content.isFaithful true = true ∧ elements.all BodyElement.isFaithful = true) := by
  have requires := (requires_body nonempty lexical closes).commit
  have solid := solid_writeBody nonempty lexical ('.' :: rest)
  refine .firstOf ⟨.after (reads_token ":-" _) fun _ _ =>
    .after solid.reads_blank fun _ _ offset => ?_,
    Rejects.requires (.bind (rejects_head_colon _))⟩
  refine .bind (requires offset) fun found _ faithful => .pure fun same => ?_
  exact ⟨Head.isFaithful_of_erase same.1, faithful same.2⟩

theorem requires_headAndBody {content : Head} {elements : List BodyElement}
    (lexicalHead : content.isLexical = true) (visible : content.isFalse = false)
    (nonempty : elements ≠ []) (lexicalBody : elements.all BodyElement.isLexical = true)
    (closes : Closes ('.' :: rest)) :
    headAndBody.Requires
      (content.write (' ' :: ':' :: '-' :: ' ' :: writeBody elements ('.' :: rest)))
      (fun found => found.1.erase = content.erase ∧
        found.2.map BodyElement.erase = elements.map BodyElement.erase)
      (content.isFaithful true = true ∧ elements.all BodyElement.isFaithful = true) := by
  have closesHead : Closes (':' :: '-' :: ' ' :: writeBody elements ('.' :: rest)) :=
    closes_cons (by decide) (by decide) _
  have requires := @requires_head _ true content lexicalHead visible closesHead
  have reads (faithful : content.isFaithful true = true) :=
    @reads_head _ true content lexicalHead faithful closesHead
  have solid := solid_writeBody nonempty lexicalBody ('.' :: rest)
  have requiresArrow : (optional do spacedToken ":-"; commit body).Requires
      (gap true ++ (':' :: '-' :: ' ' :: writeBody elements ('.' :: rest)))
      (fun found => (found.getD []).map BodyElement.erase = elements.map BodyElement.erase)
      (elements.all BodyElement.isFaithful = true) :=
    .optional (.after (reads_arrow solid) fun _ _ =>
      (requires_body nonempty lexicalBody closes).commit) fun same =>
        absurd (List.map_eq_nil_iff.mp same.symm) nonempty
  refine .firstOf ⟨Rejects.requires (.bind (rejects_arrow (head_ne_colon lexicalHead _))),
    .bind requires reads ?_ ?_⟩
  · exact fun found _ => .after fun _ _ => .pure fun same => same.1
  · exact fun faithful found _ => (requiresArrow.map fun _ same => same.2).imp
      fun faithfulBody => ⟨faithful, faithfulBody⟩

theorem requires_rule {content : Rule} (lexicalHead : content.head.isLexical = true)
    (lexicalBody : content.body.all BodyElement.isLexical = true) (noPeriod : '.' ∉ rest.head?) :
    rule.Requires ((Statement.rule content).write rest) (·.erase = content.erase)
      ((Statement.rule content).isFaithful = true) := by
  have closes : Closes ('.' :: rest) := ⟨'.', rest, rfl, by decide, fun _ => noPeriod⟩
  simp only [Statement.isFaithful, Bool.and_eq_true]
  by_cases noBody : content.body = []
  · rw [Statement.write_fact rest noBody, noBody]
    refine requires_rule_parts (@rejects_weight_head ('.' :: rest) false _ lexicalHead) ?_
    refine fun offset => (requires_fact lexicalHead closes offset).imp fun _ _ faithful same => ?_
    exact ⟨faithful same.1, rfl⟩
  · rw [List.isEmpty_eq_false_iff.mpr noBody]
    cases isFalse : content.head.isFalse with
    | true =>
        rw [Statement.write_constraint rest noBody isFalse]
        exact requires_rule_parts (rejects_weight_first (by decide) (by decide) _)
          (requires_constraint noBody lexicalBody closes)
    | false =>
        rw [Statement.write_rule rest noBody isFalse]
        exact requires_rule_parts (@rejects_weight_head
          (':' :: '-' :: ' ' :: writeBody content.body ('.' :: rest)) true _ lexicalHead)
          (requires_headAndBody lexicalHead isFalse noBody lexicalBody closes)

theorem requires_weakConstraint {content : WeakConstraint} (nonempty : content.body ≠ [])
    (lexicalBody : content.body.all BodyElement.isLexical = true)
    (lexicalTerms : Term.areLexical (content.weight :: content.priority :: content.terms) = true) :
    weakConstraint.Requires ((Statement.weakConstraint content).write rest)
      (·.erase = content.erase) ((Statement.weakConstraint content).isFaithful = true) := by
  rw [Statement.write_weakConstraint rest nonempty]
  have closes := closes_writeKey content rest
  have solidBody := solid_writeBody nonempty lexicalBody ('.' :: content.writeKey rest)
  have requiresBody := requires_body nonempty lexicalBody closes
  have readsBody (faithful : content.body.all BodyElement.isFaithful = true) :=
    reads_body nonempty lexicalBody faithful closes
  refine .located (.expecting _ (.after (reads_token ":~" _) fun _ _ =>
    .after solidBody.reads_blank fun _ _ => .commit (.bind requiresBody readsBody ?_ ?_)))
  · refine fun body _ => .after fun _ _ => .after fun _ _ => .after fun _ _ => .after fun _ _ =>
      .after fun _ _ => .after fun _ _ => .after fun _ _ => .after fun _ _ => .pure ?_
    rintro ⟨_, same⟩
    simp only [Located.relocate, WeakConstraint.erase, WeakConstraint.mk.injEq] at same
    exact same.1
  · refine fun faithful body _ => (reads_key lexicalTerms body).requires ?_
    rintro found ⟨-, sameTerms⟩ ⟨_, same⟩
    simp only [Located.relocate, WeakConstraint.erase, WeakConstraint.mk.injEq] at same
    have isErased : Term.rereadAll (content.weight :: content.priority :: content.terms) =
        Term.eraseAll (content.weight :: content.priority :: content.terms) := by
      rw [← sameTerms]
      simp only [Term.eraseAll, same]
    rw [Statement.isFaithful, faithful, (Term.rereadAll_eq_eraseAll_iff _).mp isErased]
    rfl

theorem requires_statement {content : Statement} (lexical : content.isLexical = true)
    (rest : List Char) :
    statement.Requires (content.write ('\n' :: rest)) (·.erase = content.erase)
      (content.isFaithful = true) := by
  have noPeriod : '.' ∉ ('\n' :: rest).head? := by simp
  cases content with
  | rule content =>
      simp only [Statement.isLexical, Bool.and_eq_true] at lexical
      obtain ⟨noDirective, noConstraint⟩ := rejects_others lexical.1 noPeriod
      refine .expecting _ (.firstOf ⟨Rejects.requires (.bind noDirective),
        Rejects.requires (.bind noConstraint),
        (requires_rule lexical.1 lexical.2 noPeriod).map fun found same => ?_⟩)
      rwa [Statement.erase, Statement.erase, Statement.rule.injEq] at same
  | weakConstraint content =>
      simp only [Statement.isLexical, Bool.and_eq_true, Bool.not_eq_true',
        List.isEmpty_eq_false_iff] at lexical
      have noDirective : directive.Rejects
          ((Statement.weakConstraint content).write ('\n' :: rest)) := by
        rw [Statement.write_weakConstraint _ lexical.1.1]
        exact rejects_directive (by simp)
      refine .expecting _ (.firstOf ⟨Rejects.requires (.bind noDirective),
        (requires_weakConstraint lexical.1.1 lexical.1.2 lexical.2).map fun found same => ?_,
        requires_of_other fun _ => .after fun _ _ => .pure (by rintro ⟨⟩)⟩)
      rwa [Statement.erase, Statement.erase, Statement.weakConstraint.injEq] at same
  | directive content => exact fun _ _ _ _ _ => rfl

theorem requires_statements {content : Program} (lexical : content.isLexical = true) :
    (untilEnd programStatement).Requires content.write
      (fun found => Program.erase found = content.erase) (content.isFaithful = true) := by
  induction content with
  | nil => exact fun _ _ _ _ _ => rfl
  | cons first others inductionHypothesis =>
      simp only [Program.isLexical, List.all_cons, Bool.and_eq_true] at lexical
      have requires : programStatement.Requires (first.write ('\n' :: Program.write others))
          (·.erase = first.erase) (first.isFaithful = true) := fun offset =>
        .bind (.commit (requires_statement lexical.1 _ offset)) fun _ _ holds =>
          .after fun _ _ => .pure holds
      have row := requires.untilEnd_cons
        (fun faithful => reads_programStatement lexical.1 lexical.2 faithful)
        (inductionHypothesis lexical.2)
      refine fun offset => (row offset).imp fun found _ holds same => ?_
      cases found with
      | nil => cases same
      | cons value further =>
          simp only [Program.erase, List.map_cons, List.cons.injEq] at same
          obtain ⟨faithful, othersFaithful⟩ := holds ⟨value, further, rfl, same⟩
          rw [Program.isFaithful, List.all_cons, faithful]
          exact othersFaithful

end Statements

end SoftRules.Grammar

namespace SoftRules

open SoftRules.Parser SoftRules.Grammar

/-- A program that is read back from its text is faithful. -/
theorem Program.isFaithful_of_parse_render {program found : Program}
    (lexical : program.isLexical = true)
    (accepted : Program.parse program.render.toList = .ok found)
    (same : found.erase = program.erase) : program.isFaithful = true := by
  rw [Program.toList_render] at accepted
  have requires : Grammar.program.Requires program.write
      (fun found => Program.erase found = program.erase) (program.isFaithful = true) :=
    .after (solid_program lexical).reads_no_space fun _ _ => requires_statements lexical
  obtain ⟨_, -, holds⟩ := (requires 0).run accepted
  exact holds same

/-- An accepted program is read back from its text if and only if it is faithful. -/
theorem Program.parse_render_iff {text : List Char} {program : Program}
    (accepted : Program.parse text = .ok program) :
    (∃ found, Program.parse program.render.toList = .ok found ∧ found.same program = true) ↔
      program.isFaithful = true := by
  have lexical := Program.isLexical_of_parse accepted
  constructor
  · rintro ⟨found, reread, same⟩
    exact Program.isFaithful_of_parse_render lexical reread ((Program.same_iff _ _).mp same)
  · intro faithful
    obtain ⟨found, reread, same⟩ := Program.parse_render lexical faithful
    exact ⟨found, reread, (Program.same_iff _ _).mpr same⟩

/-- Signs, negations and bounds that have to be told apart. -/
def Program.signed : List Char :=
  ("p(-(X)) :- not not not, 1 - -1 < X, not -3 < { a : not b }. " ++
    ":~ p(X), q : r(- -1); s. [- -X@2,X]").toList

theorem Program.parse_render_signed :
    ∃ source, Program.parse Program.signed = .ok source ∧ source.isFaithful = true ∧
      ∃ found, Program.parse source.render.toList = .ok found ∧ found.same source = true := by
  have succeeds : (match Program.parse Program.signed with
      | .ok source => source.isFaithful
      | .error _ => false) = true := by
    decide +kernel
  cases accepted : Program.parse Program.signed with
  | error error =>
      rw [accepted] at succeeds
      cases succeeds
  | ok source =>
      rw [accepted] at succeeds
      exact ⟨source, rfl, succeeds, (Program.parse_render_iff accepted).mpr succeeds⟩

/-- The negation of the number 1 has the text of the number -1 and is read as that. -/
theorem Program.negated_number_lost :
    ∃ source, Program.parse "p(-(1)).".toList = .ok source ∧ source.render = "p(-1).\n" ∧
      ¬ ∃ found, Program.parse source.render.toList = .ok found ∧ found.same source = true := by
  have fails : (match Program.parse "p(-(1)).".toList with
      | .ok source => source.render == "p(-1).\n" &&
          match Program.parse source.render.toList with
          | .ok found => !found.same source
          | .error _ => true
      | .error _ => false) = true := by
    decide +kernel
  cases accepted : Program.parse "p(-(1)).".toList with
  | error error =>
      rw [accepted] at fails
      cases fails
  | ok source =>
      simp only [accepted, Bool.and_eq_true, beq_iff_eq] at fails
      refine ⟨source, rfl, fails.1, ?_⟩
      rintro ⟨found, reread, same⟩
      simp only [reread, same] at fails
      cases fails.2

end SoftRules
