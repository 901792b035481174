import SoftRules.Proofs.Grammar.Literal

/-!
How theory atoms and the bodies of rules are read back from their texts.
-/

set_option autoImplicit false

namespace SoftRules

open SoftRules.Parser SoftRules.Grammar

/-! Texts. -/

def TheoryAtom.write (atom : TheoryAtom) (rest : List Char) : List Char :=
  atom.render.toList ++ rest

def TheoryAtom.writeArguments (arguments : List Term) (rest : List Char) : List Char :=
  if arguments.isEmpty then rest else '(' :: writeAll [','] Term.write arguments (')' :: rest)

def TheoryAtom.writeElements (elements : List (Element Literal)) (rest : List Char) : List Char :=
  if elements.isEmpty then rest else ' ' :: SoftRules.writeElements Element.write elements rest

theorem TheoryAtom.write_eq (atom : TheoryAtom) (rest : List Char) :
    atom.write rest =
      '&' :: (atom.name.toList ++ TheoryAtom.writeArguments atom.arguments
        (TheoryAtom.writeElements atom.elements (Guard.writeRight atom.guard rest))) := by
  obtain ⟨name, arguments, elements, guard, origin⟩ := atom
  have argumentTexts (rest : List Char) := writeAll_render "," Term.render arguments (')' :: rest)
  have elementTexts := writeElements_render Element.render elements (Guard.writeRight guard rest)
  change ∀ rest, writeAll [','] Term.write arguments (')' :: rest) = _ at argumentTexts
  change _ = SoftRules.writeElements Element.write elements _ at elementTexts
  simp only [TheoryAtom.writeArguments, TheoryAtom.writeElements]
  rw [argumentTexts, ← elementTexts]
  by_cases noArguments : arguments = [] <;> by_cases noElements : elements = [] <;>
    simp [TheoryAtom.write, TheoryAtom.render, noArguments, noElements, Guard.writeRight,
      Term.renderAll_eq, Element.renderAll_eq]

def BodyElement.write (element : BodyElement) (rest : List Char) : List Char :=
  element.render.toList ++ rest

/-- What stands between a body element and the next one. -/
def BodyElement.separator (element : BodyElement) : List Char :=
  if element.hasCondition then [';', ' '] else [',', ' ']

def writeBody (body : List BodyElement) (rest : List Char) : List Char :=
  (renderBody body).toList ++ rest

theorem writeBody_cons (first second : BodyElement) (others : List BodyElement)
    (rest : List Char) :
    writeBody (first :: second :: others) rest =
      first.write (first.separator ++ writeBody (second :: others) rest) := by
  by_cases conditional : first.hasCondition = true
  · simp [writeBody, renderBody, BodyElement.write, BodyElement.separator, conditional]
  · simp [writeBody, renderBody, BodyElement.write, BodyElement.separator, conditional]

namespace Grammar

/-! Theory atoms. -/

section TheoryAtoms

variable {text : List Char} {spaced : Bool}

theorem rejects_theoryAtom (refused : '&' ∉ text.head?) : theoryAtom.Rejects text :=
  .located (.expecting _ (.bind (rejects_char refused)))

/-- What stands behind the arguments of a theory atom. -/
theorem ends_arguments (elements : List (Element Literal)) (guard : Option Guard)
    (closes : Closes text) :
    EndsName (TheoryAtom.writeElements elements (Guard.writeRight guard (gap spaced ++ text))) ∧
      '(' ∉ (TheoryAtom.writeElements elements
        (Guard.writeRight guard (gap spaced ++ text))).head? := by
  have blank (rest : List Char) : EndsName (' ' :: rest) ∧ '(' ∉ (' ' :: rest).head? := by
    refine ⟨?_, by simp⟩
    intro next isNext
    cases isNext
    decide
  by_cases noElements : elements = []
  · subst noElements
    cases guard with
    | none => exact ⟨(closes.endsTerm spaced 0).name, (closes.endsTerm spaced 0).bracket⟩
    | some guard =>
        simp only [TheoryAtom.writeElements, List.isEmpty_nil, if_true, Guard.writeRight_some]
        exact blank _
  · simp only [TheoryAtom.writeElements, List.isEmpty_eq_false_iff.mpr noElements,
      Bool.false_eq_true, if_false]
    exact blank _

theorem reads_theoryArguments {terms : List Term} (reads : AllRead terms) {rest : List Char}
    (noBracket : '(' ∉ rest.head?) :
    (optional (arguments term)).Reads (TheoryAtom.writeArguments terms rest) rest fun found =>
      ((found.map Prod.fst).getD []).map Term.erase = terms.map Term.reread := by
  by_cases empty : terms = []
  · subst empty
    refine (Reads.optional_none (rejects_arguments term noBracket)).imp ?_
    rintro _ rfl
    rfl
  · simp only [TheoryAtom.writeArguments, List.isEmpty_eq_false_iff.mpr empty, Bool.false_eq_true,
      if_false]
    refine (Reads.optional_some (reads.arguments false (by simp) rest)).imp ?_
    rintro _ ⟨found, rfl, same, _⟩
    exact same

/-- What stands behind the elements of a theory atom: a bound or a delimiter. -/
theorem writeRight_shape (guard : Option Guard) (closes : Closes text) :
    ∃ blanks rest, Guard.writeRight guard (gap spaced ++ text) = blanks ++ rest ∧
      (∀ blank ∈ blanks, isSpace blank = true) ∧ Solid rest ∧ '\x7b' ∉ rest.head? := by
  cases guard with
  | none =>
      exact ⟨gap spaced, text, rfl, gap_areBlank spaced, closes.solid, closes.head_ne (by decide)⟩
  | some guard =>
      rw [Guard.writeRight_some]
      refine ⟨[' '], _, rfl, by simp [isSpace], solid_relation guard.relation _, ?_⟩
      cases guard.relation <;> intro isFirst <;> cases isFirst

theorem reads_theoryElements {elements : List (Element Literal)}
    (areRead : ElementsAreRead elements) (lexical : Element.areLexical elements = true)
    (guard : Option Guard) (closes : Closes text) :
    (optional do
      space
      braced (separated (spacedToken ";") (element literal))).Reads
      (TheoryAtom.writeElements elements (Guard.writeRight guard (gap spaced ++ text)))
      (Guard.writeRight guard (gap spaced ++ text)) fun found =>
        Element.eraseAll (found.getD []) = Element.eraseAll elements := by
  obtain ⟨blanks, rest, shape, areBlank, solid, noBrace⟩ :=
    @writeRight_shape text spaced guard closes
  rw [shape]
  by_cases empty : elements = []
  · subst empty
    refine (Reads.optional_none (.after (solid.reads_space blanks areBlank) fun _ _ =>
      rejects_braced noBrace)).imp ?_
    rintro _ rfl
    rfl
  · simp only [TheoryAtom.writeElements, List.isEmpty_eq_false_iff.mpr empty, Bool.false_eq_true,
      if_false]
    have opening : Solid (SoftRules.writeElements Element.write elements (blanks ++ rest)) :=
      solid_cons (by decide) (by decide)
    refine (Reads.optional_some (.bind opening.reads_blank fun _ _ =>
      areRead.reads lexical (blanks ++ rest))).imp ?_
    rintro _ ⟨found, rfl, same⟩
    exact same

theorem reads_theoryGuard {guard : Option Guard} (lexical : Guard.isLexical guard = true)
    (closes : Closes text) :
    (optional do
      space
      let relation ← relation
      space
      return ({ relation, term := ← term } : Guard)).Reads
      (Guard.writeRight guard (gap spaced ++ text)) (gap spaced ++ text) fun found =>
        found.map Guard.erase = guard.map Guard.reread := by
  cases guard with
  | none =>
      refine (Reads.optional_none (.after (closes.solid.reads_gap spaced) fun _ _ =>
        .bind closes.rejects_relation)).imp ?_
      rintro _ rfl
      rfl
  | some guard =>
      have readable := isReadable_of_isLexical guard.term lexical
      have solid : Solid (guard.term.write (gap spaced ++ text)) := (readable.1 _).solid
      rw [Guard.writeRight_some]
      have reads : (do
          space
          let relation ← relation
          space
          return ({ relation, term := ← term } : Guard) : Parser Guard).Reads
          (' ' :: (guard.relation.symbol.toList ++ ' ' :: guard.term.write (gap spaced ++ text)))
          (gap spaced ++ text) fun found => found.erase = guard.reread := by
        refine .bind (solid_relation guard.relation _).reads_blank fun _ _ =>
          .bind (reads_relation guard.relation (by simp)) ?_
        rintro _ rfl
        refine .bind solid.reads_blank fun _ _ =>
          .bind (readable.reads_term (closes.endsTerm spaced 0)) fun found same => .pure ?_
        simp only [Guard.erase, Guard.reread, same]
      refine (Reads.optional_some reads).imp ?_
      rintro _ ⟨found, rfl, same⟩
      rw [Option.map_some, same, Option.map_some]

theorem endsName_theory (content : TheoryAtom) (closes : Closes text) :
    EndsName (TheoryAtom.writeArguments content.arguments (TheoryAtom.writeElements content.elements
      (Guard.writeRight content.guard (gap spaced ++ text)))) := by
  by_cases empty : content.arguments = []
  · rw [empty]
    exact (ends_arguments content.elements content.guard closes).1
  · simp only [TheoryAtom.writeArguments, List.isEmpty_eq_false_iff.mpr empty, Bool.false_eq_true,
      if_false]
    intro next isNext
    cases isNext
    decide

theorem reads_theoryAtom {content : TheoryAtom} (lexical : content.isLexical = true)
    (areRead : ElementsAreRead content.elements) (closes : Closes text) :
    theoryAtom.Reads (content.write (gap spaced ++ text)) (gap spaced ++ text) fun found =>
      found.erase = ⟨content.name, Term.rereadAll content.arguments,
        Element.eraseAll content.elements, content.guard.map Guard.reread, none⟩ := by
  simp only [TheoryAtom.isLexical, Bool.and_eq_true] at lexical
  obtain ⟨⟨⟨validName, lexicalArguments⟩, lexicalElements⟩, lexicalGuard⟩ := lexical
  have readsArguments := reads_theoryArguments (allRead_of_areLexical _ lexicalArguments)
    (@ends_arguments text spaced content.elements content.guard closes).2
  have readsElements :=
    @reads_theoryElements text spaced content.elements areRead lexicalElements content.guard closes
  rw [TheoryAtom.write_eq]
  refine .located (.expecting _ (.bind (.char _ _) fun _ _ =>
    .bind (reads_name validName (endsName_theory content closes)) ?_))
  rintro _ rfl
  refine .bind readsArguments fun arguments sameArguments =>
    .bind readsElements fun elements sameElements =>
      .bind (reads_theoryGuard lexicalGuard closes) fun guard sameGuard => .pure fun _ => ?_
  simp only [Located.relocate, TheoryAtom.erase, sameElements, sameGuard, Term.eraseAll_eq,
    sameArguments, Term.rereadAll_eq]

end TheoryAtoms

/-! Bodies. -/

section Bodies

variable {text : List Char}

/-- The body element is read as it was written in front of each text that may stand behind it. -/
def BodyElement.IsRead (content : BodyElement) : Prop :=
  ∀ text, Closes text → ':' ∉ text.head? → (content.hasCondition = true → ',' ∉ text.head?) →
    bodyElement.Reads (content.write text) text fun found => found.erase = content.erase

/-- A literal is read together with the condition that it might have. -/
theorem reads_bodyElement {content : Conditional Literal} (lexical : content.isLexical = true)
    (faithful : content.isFaithful false = true) (closes : Closes text)
    (noColon : ':' ∉ text.head?) (noComma : content.condition ≠ [] → ',' ∉ text.head?) :
    bodyElement.Reads (content.write text) text fun found => found.erase =
      if content.condition.isEmpty then .literal content.literal.erase
      else .conditional content.erase := by
  have noTheory : theoryAtom.Rejects (content.write text) :=
    rejects_theoryAtom ((startsLiteral_conditional lexical text).head_ne (by decide))
  have reads := @reads_faithful_conditional text false content lexical faithful closes noColon
    noComma
  obtain ⟨literal, condition, origin⟩ := content
  refine .expecting _ (.firstOf (.tail (.bind noTheory) (.head (.bind reads ?_))))
  rintro ⟨foundLiteral, foundCondition, foundOrigin⟩ same
  refine .pure ?_
  simp only [Conditional.erase, Conditional.mk.injEq, Literal.eraseAll_eq, and_true] at same
  have sameEmpty : foundCondition.isEmpty = condition.isEmpty := by
    have empty := congrArg List.isEmpty same.2
    rwa [List.isEmpty_map, List.isEmpty_map] at empty
  simp only [sameEmpty]
  split
  · simp only [BodyElement.erase, same.1]
  · simp only [BodyElement.erase, Conditional.erase, same.1, Literal.eraseAll_eq, same.2]

theorem reads_faithful_theoryAtom {content : TheoryAtom} (lexical : content.isLexical = true)
    (faithful : content.isFaithful = true) (closes : Closes text) (spaced : Bool) :
    theoryAtom.Reads (content.write (gap spaced ++ text)) (gap spaced ++ text) fun found =>
      found.erase = content.erase := by
  have lexicalElements : Element.areLexical content.elements = true := by
    simp only [TheoryAtom.isLexical, Bool.and_eq_true] at lexical
    exact lexical.1.2
  simp only [TheoryAtom.isFaithful, Bool.and_eq_true] at faithful
  have reads := @reads_theoryAtom text spaced content lexical
    (elementsAreRead content.elements lexicalElements faithful.1.2) closes
  rwa [(Term.rereadAll_eq_eraseAll_iff _).mpr faithful.1.1,
    (Guard.reread_eq_erase_iff _).mpr faithful.2] at reads

theorem isRead_bodyElement {content : BodyElement} (lexical : content.isLexical = true)
    (faithful : content.isFaithful = true) : BodyElement.IsRead content := by
  intro text closes noColon noComma
  cases content with
  | literal content =>
      have unconditional : (⟨content, [], none⟩ : Conditional Literal).write text =
          content.write text := by rw [Conditional.write_eq, writeCondition_nil]
      have reads := @reads_bodyElement text ⟨content, [], none⟩
        (by simpa [Conditional.isLexical, Literal.areLexical, BodyElement.isLexical] using lexical)
        (by simpa [Conditional.isFaithful, Literal.areFaithful, BodyElement.isFaithful]
          using faithful)
        closes noColon (by simp)
      rwa [unconditional] at reads
  | conditional content =>
      simp only [BodyElement.isLexical, Bool.and_eq_true, Bool.not_eq_true'] at lexical
      have reads := reads_bodyElement lexical.2 faithful closes noColon fun nonempty =>
        noComma (by simpa [BodyElement.hasCondition] using nonempty)
      simp only [lexical.1, Bool.false_eq_true, if_false] at reads
      exact reads
  | theory content =>
      have reads := reads_faithful_theoryAtom lexical faithful closes false
      refine .expecting _ (.firstOf (.head (.bind reads fun found same => .pure ?_)))
      rw [BodyElement.erase, same]
      rfl

theorem solid_bodyElement {content : BodyElement} (lexical : content.isLexical = true)
    (rest : List Char) : Solid (content.write rest) := by
  cases content with
  | literal content => exact (startsLiteral_literal lexical rest).solid
  | conditional content =>
      simp only [BodyElement.isLexical, Bool.and_eq_true] at lexical
      exact (startsLiteral_conditional lexical.2 rest).solid
  | theory content =>
      change Solid (content.write rest)
      rw [TheoryAtom.write_eq]
      exact solid_cons (by decide) (by decide)

theorem solid_writeBody {body : List BodyElement} (nonempty : body ≠ [])
    (lexical : body.all BodyElement.isLexical = true) (rest : List Char) :
    Solid (writeBody body rest) := by
  rw [List.all_eq_true] at lexical
  rcases body with _ | ⟨first, _ | ⟨second, others⟩⟩
  · exact absurd rfl nonempty
  · exact solid_bodyElement (lexical first (List.mem_cons_self ..)) rest
  · rw [writeBody_cons]
    exact solid_bodyElement (lexical first (List.mem_cons_self ..)) _

/-- Either delimiter separates body elements. -/
theorem reads_separator (content : BodyElement) (solid : Solid text) :
    (firstOf [spacedToken ",", spacedToken ";"]).Reads (content.separator ++ text) text
      fun _ => True := by
  by_cases conditional : content.hasCondition = true
  · simp only [BodyElement.separator, conditional, if_true]
    have noComma : (spacedToken ",").Rejects ([';', ' '] ++ text) :=
      rejects_comma (solid_cons (by decide) (by decide)) (by simp)
    exact .firstOf (.tail noComma (.head (solid.reads_delimiter rfl (by decide) (by decide))))
  · simp only [BodyElement.separator, conditional]
    exact .firstOf (.head (solid.reads_delimiter rfl (by decide) (by decide)))

theorem readsRow_body {body : List BodyElement} (nonempty : body ≠ [])
    (lexical : body.all BodyElement.isLexical = true)
    (faithful : body.all BodyElement.isFaithful = true) (closes : Closes ('.' :: text)) :
    ReadsRow bodyElement (firstOf [spacedToken ",", spacedToken ";"])
      (fun content found => found.erase = content.erase) body (writeBody body ('.' :: text))
      ('.' :: text) := by
  induction body with
  | nil => exact absurd rfl nonempty
  | cons first others inductionHypothesis =>
      simp only [List.all_cons, Bool.and_eq_true] at lexical faithful
      have isRead := isRead_bodyElement lexical.1 faithful.1
      cases others with
      | nil => exact .last (isRead _ closes (by simp) (by simp))
      | cons second others =>
          rw [writeBody_cons]
          have solid := solid_writeBody (List.cons_ne_nil second others) lexical.2 ('.' :: text)
          refine .cons (isRead _ ?_ ?_ ?_) (reads_separator first solid) ?_
            (inductionHypothesis (by simp) lexical.2 faithful.2)
          · rw [BodyElement.separator]
            split <;> exact closes_cons (by decide) (by decide) _
          · rw [BodyElement.separator]
            split <;> simp
          · intro conditional
            simp [BodyElement.separator, conditional]
          · rw [List.length_append, BodyElement.separator]
            split <;> simp

theorem reads_body {content : List BodyElement} (nonempty : content ≠ [])
    (lexical : content.all BodyElement.isLexical = true)
    (faithful : content.all BodyElement.isFaithful = true) (closes : Closes ('.' :: text)) :
    body.Reads (writeBody content ('.' :: text)) ('.' :: text) fun found =>
      found.map BodyElement.erase = content.map BodyElement.erase := by
  have noToken (spelling : String) (first : Char) (shape : spelling.toList = [first])
      (other : first ≠ '.') : (spacedToken spelling).Rejects ('.' :: text) := by
    refine @Solid.rejects_spacedToken _ spelling [] closes.solid ?_ (by simp)
    rintro ⟨others, isStart⟩
    rw [shape] at isStart
    cases isStart
    exact other rfl
  have ends : (do
      firstOf [spacedToken ",", spacedToken ";"]
      bodyElement : Parser BodyElement).Rejects ('.' :: text) :=
    .bind (rejects_firstOf (.cons (noToken "," ',' rfl (by decide))
      (.cons (noToken ";" ';' rfl (by decide)) .nil)))
  exact ((readsRow_body nonempty lexical faithful closes).separated1 ends).imp
    fun found same => map_eq_of_forall₂ same

end Bodies

end Grammar

end SoftRules
