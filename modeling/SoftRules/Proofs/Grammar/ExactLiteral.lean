import SoftRules.Proofs.Grammar.Accepted
import SoftRules.Proofs.Grammar.Literal

/-!
Only faithful literals are read as they were written.

The text of a literal may be accepted although the literal is not faithful, but then with another
value. The proof goes through the parts of the text from left to right: a part that is read as it
was written is faithful, so it is known where the next part starts.
-/

set_option autoImplicit false

namespace SoftRules.Grammar

open SoftRules.Parser

/-! Signs. -/

section Sign

variable {text : List Char}

theorem not_rejectsAt_spaceItem {first : Char} (isBlank : isSpace first = true ∨ first = '%')
    (offset : Nat) : ¬ spaceItem.RejectsAt ⟨offset, first :: text⟩ := by
  intro rejects
  have alternatives := rejects.of_firstOf
  simp only [List.forall_mem_cons] at alternatives
  rcases isBlank with isBlank | rfl
  · rcases alternatives.1.of_map.of_bind with rejected | ⟨_, _, _, rejected⟩
    · exact (Reads.satisfy _ isBlank).not_rejectsAt rejected
    · rcases rejected.of_map with ⟨_, rejected⟩
      cases rejected
  · have comments := alternatives.2.1.of_firstOf
    simp only [List.forall_mem_cons] at comments
    exact (Reads.word ['%'] text).not_rejectsAt comments.2.2.1

theorem not_rejectsAt_negation (starts : startsNegation text = true) (offset : Nat) :
    ¬ negation.RejectsAt ⟨offset, text⟩ := by
  simp only [startsNegation, Bool.and_eq_true] at starts
  obtain ⟨isStart, isNext⟩ := starts
  obtain ⟨behind, rfl⟩ := List.isPrefixOf_iff_prefix.mp isStart
  cases behind with
  | nil => cases isNext
  | cons next behind =>
      have isBlank : isSpace next = true ∨ next = '%' := by simpa using isNext
      intro rejects
      rcases rejects.of_bind with rejected | ⟨_, ⟨stop, _⟩, accepted, rejected⟩
      · exact (Reads.word "not".toList (next :: behind)).not_rejectsAt rejected
      · obtain ⟨_, rfl⟩ := (Reads.word "not".toList (next :: behind)).answers offset _ _ accepted
        rcases rejected.of_map.of_bind with rejected | ⟨_, _, _, rejected⟩
        · exact not_rejectsAt_spaceItem isBlank stop rejected.of_explain
        · exact not_rejectsAt_many consumes_spaceItem _ rejected.of_map

/-- A sign is read as it was written only in front of an atom that does not start like one. -/
theorem requires_sign (symbol : Sign) (solid : Solid text) :
    sign.Requires (symbol.render.toList ++ text) (· = symbol)
      (symbol = .doublyNegated ∨ startsNegation text = false) := by
  by_cases unsigned : symbol = .doublyNegated ∨ startsNegation text = false
  · exact fun _ _ _ _ _ => unsigned
  · simp only [not_or, Bool.not_eq_false] at unsigned
    obtain ⟨single, starts⟩ := unsigned
    intro offset
    have other : sign.Answers ⟨offset, symbol.render.toList ++ text⟩ fun found _ =>
        found ≠ symbol := by
      refine .firstOf ⟨?_, fun noDouble => ⟨?_, fun noSingle => ⟨.pure ?_, fun _ => trivial⟩⟩⟩
      · exact .after fun _ _ => .after fun _ _ => .pure (Ne.symm single)
      · refine .after fun _ _ => .pure ?_
        rintro rfl
        rcases noDouble.of_bind with rejected | ⟨_, ⟨stop, _⟩, accepted, rejected⟩
        · exact (reads_not solid).not_rejectsAt rejected
        · obtain ⟨_, rfl⟩ := (reads_not solid).answers offset _ _ accepted
          exact not_rejectsAt_negation starts stop rejected.of_map
      · rintro rfl
        exact not_rejectsAt_negation starts offset noSingle.of_map
    exact other.imp fun found _ differs isSymbol => absurd isSymbol differs

end Sign

/-! Literals and their lists. -/

section Parts

variable {text : List Char} {spaced : Bool}

/-- The literal is read as it was written only if it is faithful. -/
def IsExact (spaced : Bool) (content : Literal) : Prop :=
  ∀ text, Closes text → literal.Requires (content.write (gap spaced ++ text))
    (·.erase = content.erase) (content.isFaithful spaced = true)

theorem isExact_of_atom {sign : Sign} {content : Atom Literal} {origin : Origin}
    (lexical : content.isLexical = true)
    (requires : ∀ text, Closes text → (atom literal).Requires (content.write (gap spaced ++ text))
      (·.erase = content.erase) (content.isFaithful = true)) :
    IsExact spaced ⟨sign, content, origin⟩ := by
  intro text closes
  rw [literal_eq, Literal.write_eq]
  have solid := (startsLiteral_atom lexical (gap spaced ++ text)).solid
  refine .located (.expecting _ (.bind (requires_sign sign solid) (reads_sign solid) ?_ ?_))
  · refine fun found _ => .after fun _ _ => .pure ?_
    rintro ⟨_, same⟩
    simp only [Located.relocate, Literal.erase, Literal.mk.injEq] at same
    exact same.1
  · intro unsigned found _
    rw [Atom.write, ← List.append_assoc, startsNegation_append _ closes] at unsigned
    refine ((requires text closes).map ?_).imp fun faithful => ?_
    · rintro foundAtom ⟨_, same⟩
      simp only [Located.relocate, Literal.erase, Literal.mk.injEq, and_true] at same
      exact same.2
    · simp only [Literal.isFaithful, Bool.and_eq_true, Bool.or_eq_true, beq_iff_eq,
        Bool.not_eq_true']
      exact ⟨unsigned, faithful⟩

def AreExact (spaced : Bool) (literals : List Literal) : Prop :=
  ∀ text, Closes text → RequiresRow literal (spacedToken ",")
    (fun content found => found.erase = content.erase) literals
    (writeAll [',', ' '] Literal.write literals (gap spaced ++ text))
    (Literal.areFaithful spaced literals = true)

theorem solid_writeLiterals {literals : List Literal} (nonempty : literals ≠ [])
    (lexical : Literal.areLexical literals = true) (rest : List Char) :
    Solid (writeAll [',', ' '] Literal.write literals rest) := by
  have lexicals := (Literal.areLexical_iff literals).mp lexical
  exact solid_writeAll nonempty
    (fun content member text => (startsLiteral_literal (lexicals content member) text).solid) rest

theorem areExact_cons {first : Literal} {others : List Literal}
    (lexical : first.isLexical = true) (othersLexical : Literal.areLexical others = true)
    (isExact : IsExact (others.isEmpty && spaced) first)
    (areExact : others ≠ [] → AreExact spaced others) : AreExact spaced (first :: others) := by
  intro text closes
  cases others with
  | nil =>
      refine .last ((isExact text closes).imp fun faithful => ?_)
      simp only [Literal.areFaithful, faithful, Bool.and_true]
  | cons second others =>
      have behind := closes_cons (by decide : isDelimiter ',' = true) (by decide)
        (' ' :: writeAll [',', ' '] Literal.write (second :: others) (gap spaced ++ text))
      have solid := solid_writeLiterals (List.cons_ne_nil second others) othersLexical
        (gap spaced ++ text)
      refine .cons (isExact _ behind)
        (fun faithful => isRead_of_isFaithful first _ lexical faithful _ behind)
        (solid.reads_delimiter rfl (by decide) (by decide))
        (areExact (by simp) text closes) fun faithful othersFaithful => ?_
      rw [Literal.areFaithful, faithful, othersFaithful]
      rfl

theorem requires_condition {literals : List Literal} (lexical : Literal.areLexical literals = true)
    (areExact : literals ≠ [] → AreExact spaced literals) (closes : Closes text) :
    (condition literal).Requires (writeCondition literals (gap spaced ++ text))
      (fun found => Literal.eraseAll found = Literal.eraseAll literals)
      (Literal.areFaithful spaced literals = true) := by
  by_cases nonempty : literals = []
  · subst nonempty
    exact fun _ _ _ _ _ => rfl
  · rw [writeCondition_of_ne_nil nonempty]
    have solid := solid_writeLiterals nonempty lexical (gap spaced ++ text)
    have colon : (spacedToken ":").Reads
        (':' :: ' ' :: writeAll [',', ' '] Literal.write literals (gap spaced ++ text))
        (writeAll [',', ' '] Literal.write literals (gap spaced ++ text)) fun _ => True :=
      solid.reads_delimiter rfl (by decide) (by decide)
    have row : (separated1 (spacedToken ",") literal).Requires
        (writeAll [',', ' '] Literal.write literals (gap spaced ++ text))
        (fun found => Literal.eraseAll found = Literal.eraseAll literals)
        (Literal.areFaithful spaced literals = true) := by
      refine fun offset => ((areExact nonempty text closes).separated1 offset).imp ?_
      intro values _ requires same
      rw [Literal.eraseAll_eq, Literal.eraseAll_eq] at same
      exact requires (forall₂_of_map_eq same)
    have found : (optional do
        spacedToken ":"
        separated1 (spacedToken ",") literal).Requires
        (':' :: ' ' :: writeAll [',', ' '] Literal.write literals (gap spaced ++ text))
        (fun found => Literal.eraseAll (found.getD []) = Literal.eraseAll literals)
        (Literal.areFaithful spaced literals = true) := by
      refine .optional (.after colon fun _ _ => row) fun same => ?_
      rw [Literal.eraseAll_eq, Literal.eraseAll_eq] at same
      exact absurd (List.map_eq_nil_iff.mp same.symm) nonempty
    exact found.map fun _ same => same

theorem requires_conditional {content : Conditional Literal} (lexical : content.isLexical = true)
    (isExact : IsExact (content.condition.isEmpty && spaced) content.literal)
    (areExact : content.condition ≠ [] → AreExact spaced content.condition) (closes : Closes text) :
    (conditional literal).Requires (content.write (gap spaced ++ text)) (·.erase = content.erase)
      (content.isFaithful spaced = true) := by
  obtain ⟨behind, closesBehind, shape⟩ :=
    @writeCondition_shape text spaced content.condition closes
  obtain ⟨first, condition, origin⟩ := content
  simp only [Conditional.isLexical, Bool.and_eq_true] at lexical
  rw [Conditional.write_eq, shape]
  have isRead (faithful : first.isFaithful (condition.isEmpty && spaced) = true) :=
    isRead_of_isFaithful first _ lexical.1 faithful behind closesBehind
  refine .located (.bind (isExact behind closesBehind) isRead ?_ ?_)
  · refine fun found _ => .after fun _ _ => .pure ?_
    rintro ⟨_, same⟩
    simp only [Located.relocate, Conditional.erase, Conditional.mk.injEq, and_true] at same
    exact same.1
  · intro faithful found _
    rw [← shape]
    refine ((requires_condition lexical.2 areExact closes).map ?_).imp fun othersFaithful => ?_
    · rintro literals ⟨_, same⟩
      simp only [Located.relocate, Conditional.erase, Conditional.mk.injEq, and_true] at same
      exact same.2
    · rw [Conditional.isFaithful, faithful, othersFaithful]
      rfl

theorem requires_element {content : Element Literal} (lexical : content.isLexical = true)
    (areExact : content.condition ≠ [] → AreExact spaced content.condition) (closes : Closes text)
    (noComma : ',' ∉ text.head?) :
    (element literal).Requires (content.write (gap spaced ++ text)) (·.erase = content.erase)
      (content.isFaithful spaced = true) := by
  have readsTerms := @reads_element_terms text spaced content lexical closes noComma
  obtain ⟨terms, condition⟩ := content
  simp only [Element.isLexical, Bool.and_eq_true] at lexical
  refine .after readsTerms fun found sameTerms => ?_
  by_cases faithfulTerms : Term.areFaithful terms = true
  · refine ((requires_condition lexical.2 areExact closes).map ?_).imp fun faithful => ?_
    · intro literals same
      simp only [Element.erase, Element.mk.injEq] at same
      exact same.2
    · rw [Element.isFaithful, faithfulTerms, faithful]
      rfl
  · refine requires_of_other fun _ => .after fun _ _ => .pure fun same => faithfulTerms ?_
    simp only [Element.erase, Element.mk.injEq] at same
    exact (Term.rereadAll_eq_eraseAll_iff terms).mp (sameTerms ▸ same.1)

/-- Elements in braces are read one by one. -/
theorem requires_elements {ι α : Type} {item : Parser α} {write : ι → List Char → List Char}
    {like : ι → α → Prop} {elements : List ι} {rest : List Char} {condition : Prop}
    (requires : elements ≠ [] → RequiresRow item (spacedToken ";") like elements
      (writeAll [';', ' '] write elements (' ' :: '\x7d' :: rest)) condition)
    (solid : ∀ element ∈ elements, ∀ text, Solid (write element text))
    (empty : elements = [] → condition) :
    (braced (separated (spacedToken ";") item)).Requires (writeElements write elements rest)
      (List.Forall₂ like elements) condition := by
  by_cases nonempty : elements = []
  · exact fun _ _ _ _ _ => empty nonempty
  · have solidAll := @solid_writeAll _ [';', ' '] write elements nonempty solid
      (' ' :: '\x7d' :: rest)
    have found : (optional (separated1 (spacedToken ";") item)).Requires
        (writeAll [';', ' '] write elements (' ' :: '\x7d' :: rest))
        (fun found => List.Forall₂ like elements (found.getD [])) condition := by
      refine .optional (requires nonempty).separated1 fun areLike => ?_
      cases areLike
      exact absurd rfl nonempty
    have contents : (separated (spacedToken ";") item).Requires
        (writeAll [';', ' '] write elements (' ' :: '\x7d' :: rest))
        (List.Forall₂ like elements) condition := found.map fun _ areLike => areLike
    refine .after (.char _ _) fun _ _ => .after solidAll.reads_blank fun _ _ => fun offset => ?_
    exact .bind (contents offset) fun _ _ alike => .after fun _ _ => .after fun _ _ => .pure alike

/-- Conditional literals in braces, of which the last one has a blank behind it. -/
def ConditionalsAreExact (elements : List (Conditional Literal)) : Prop :=
  ∀ rest, elements ≠ [] → RequiresRow (conditional literal) (spacedToken ";")
    (fun content found => found.erase = content.erase) elements
    (writeAll [';', ' '] Conditional.write elements (' ' :: '\x7d' :: rest))
    (Conditional.areFaithful elements = true)

theorem ConditionalsAreExact.requires {elements : List (Conditional Literal)}
    (areExact : ConditionalsAreExact elements) (lexical : Conditional.areLexical elements = true)
    (rest : List Char) :
    (braced (separated (spacedToken ";") (conditional literal))).Requires
      (writeElements Conditional.write elements rest)
      (fun found => Conditional.eraseAll found = Conditional.eraseAll elements)
      (Conditional.areFaithful elements = true) := by
  have lexicals := (Conditional.areLexical_iff elements).mp lexical
  have requires := requires_elements (areExact rest)
    (fun element member text => (startsLiteral_conditional (lexicals element member) text).solid)
    (fun empty => empty ▸ rfl)
  refine fun offset => (requires offset).imp fun found _ requires same => ?_
  rw [Conditional.eraseAll_eq, Conditional.eraseAll_eq] at same
  exact requires (forall₂_of_map_eq same)

theorem conditionalsAreExact_cons {first : Conditional Literal}
    {others : List (Conditional Literal)} (lexical : first.isLexical = true)
    (othersLexical : Conditional.areLexical others = true)
    (isExact : IsExact (first.condition.isEmpty && others.isEmpty) first.literal)
    (areExact : first.condition ≠ [] → AreExact others.isEmpty first.condition)
    (othersAreExact : ConditionalsAreExact others) : ConditionalsAreExact (first :: others) := by
  intro rest _
  cases others with
  | nil =>
      refine .last ((requires_conditional lexical isExact areExact
        (closes_cons (by decide) (by decide) rest)).imp fun faithful => ?_)
      rw [Conditional.areFaithful, faithful]
      rfl
  | cons second others =>
      have behind := closes_cons (by decide : isDelimiter ';' = true) (by decide)
        (' ' :: writeAll [';', ' '] Conditional.write (second :: others) (' ' :: '\x7d' :: rest))
      have lexicals := (Conditional.areLexical_iff _).mp othersLexical
      have solid : Solid (writeAll [';', ' '] Conditional.write (second :: others)
          (' ' :: '\x7d' :: rest)) := solid_writeAll (by simp) (fun element member text =>
        (startsLiteral_conditional (lexicals element member) text).solid) _
      have requires := requires_conditional lexical isExact areExact behind
      have reads (faithful : first.isFaithful false = true) :=
        reads_faithful_conditional lexical faithful behind (by simp) (by simp)
      refine .cons requires reads (solid.reads_delimiter rfl (by decide) (by decide))
        (othersAreExact rest (by simp)) ?_
      intro faithful othersFaithful
      rw [Conditional.areFaithful, faithful, othersFaithful]
      rfl

theorem requires_aggregate {content : Aggregate Literal} (lexical : content.isLexical = true)
    (areExact : ConditionalsAreExact content.elements) (closes : Closes text) :
    (aggregate literal).Requires ((Atom.aggregate content).write (gap spaced ++ text))
      (·.erase = content.erase) (content.isFaithful = true) := by
  obtain ⟨left, elements, right, origin⟩ := content
  simp only [Aggregate.isLexical, Bool.and_eq_true] at lexical
  rw [Atom.write_aggregate]
  have solid : Solid (writeElements Conditional.write elements
      (Guard.writeRight right (gap spaced ++ text))) := solid_cons (by decide) (by decide)
  have leading := reads_leadingGuard lexical.1.1 solid (by simp [writeElements, isTermStart])
  refine .located (.after leading fun foundLeft sameLeft => .bind (areExact.requires lexical.1.2 _)
    (fun faithful => (conditionalsAreRead elements lexical.1.2 faithful).reads lexical.1.2 _) ?_ ?_)
  · refine fun found _ => .after fun _ _ => .pure ?_
    rintro ⟨_, same⟩
    simp only [Located.relocate, Aggregate.erase, Aggregate.mk.injEq] at same
    exact same.2.1
  · refine fun faithful found _ => .after (reads_trailingGuard lexical.2 closes spaced) ?_
    refine fun foundRight sameRight => .pure ?_
    rintro ⟨_, same⟩
    simp only [Located.relocate, Aggregate.erase, Aggregate.mk.injEq, sameLeft, sameRight] at same
    rw [Aggregate.isFaithful, faithful, (Guard.reread_eq_erase_iff left).mp same.1,
      (Guard.reread_eq_erase_iff right).mp same.2.2.1]
    rfl

/-- Elements of body aggregates in braces, of which the last one has a blank behind it. -/
def ElementsAreExact (elements : List (Element Literal)) : Prop :=
  ∀ rest, elements ≠ [] → RequiresRow (element literal) (spacedToken ";")
    (fun content found => found.erase = content.erase) elements
    (writeAll [';', ' '] Element.write elements (' ' :: '\x7d' :: rest))
    (Element.areFaithful elements = true)

theorem ElementsAreExact.requires {elements : List (Element Literal)}
    (areExact : ElementsAreExact elements) (lexical : Element.areLexical elements = true)
    (rest : List Char) :
    (braced (separated (spacedToken ";") (element literal))).Requires
      (writeElements Element.write elements rest)
      (fun found => Element.eraseAll found = Element.eraseAll elements)
      (Element.areFaithful elements = true) := by
  have lexicals := (Element.areLexical_iff elements).mp lexical
  have requires := requires_elements (areExact rest)
    (fun element member text => (startsTerm_element (lexicals element member) text).solid)
    (fun empty => empty ▸ rfl)
  refine fun offset => (requires offset).imp fun found _ requires same => ?_
  rw [Element.eraseAll_eq, Element.eraseAll_eq] at same
  exact requires (forall₂_of_map_eq same)

theorem elementsAreExact_cons {first : Element Literal} {others : List (Element Literal)}
    (lexical : first.isLexical = true) (othersLexical : Element.areLexical others = true)
    (areExact : first.condition ≠ [] → AreExact others.isEmpty first.condition)
    (othersAreExact : ElementsAreExact others) : ElementsAreExact (first :: others) := by
  intro rest _
  cases others with
  | nil =>
      refine .last ((requires_element lexical areExact
        (closes_cons (by decide) (by decide) rest) (by simp)).imp fun faithful => ?_)
      rw [Element.areFaithful, faithful]
      rfl
  | cons second others =>
      have behind := closes_cons (by decide : isDelimiter ';' = true) (by decide)
        (' ' :: writeAll [';', ' '] Element.write (second :: others) (' ' :: '\x7d' :: rest))
      have lexicals := (Element.areLexical_iff _).mp othersLexical
      have solid : Solid (writeAll [';', ' '] Element.write (second :: others)
          (' ' :: '\x7d' :: rest)) := solid_writeAll (by simp) (fun element member text =>
        (startsTerm_element (lexicals element member) text).solid) _
      have requires := requires_element lexical areExact behind (by simp)
      have reads (faithful : first.isFaithful false = true) :=
        reads_faithful_element lexical faithful behind (by simp) (by simp)
      refine .cons requires reads (solid.reads_delimiter rfl (by decide) (by decide))
        (othersAreExact rest (by simp)) ?_
      intro faithful othersFaithful
      rw [Element.areFaithful, faithful, othersFaithful]
      rfl

theorem requires_bodyAggregate {content : BodyAggregate Literal}
    (lexical : content.isLexical = true) (areExact : ElementsAreExact content.elements)
    (closes : Closes text) :
    (bodyAggregate literal).Requires ((Atom.bodyAggregate content).write (gap spaced ++ text))
      (·.erase = content.erase) (content.isFaithful = true) := by
  obtain ⟨function, left, elements, right, origin⟩ := content
  simp only [BodyAggregate.isLexical, Bool.and_eq_true] at lexical
  rw [Atom.write_bodyAggregate]
  have opening : Solid (writeElements Element.write elements
      (Guard.writeRight right (gap spaced ++ text))) := solid_cons (by decide) (by decide)
  have leading := reads_leadingGuard lexical.1.1 (solid_function function _)
    (startsFunction function (' ' :: writeElements Element.write elements
      (Guard.writeRight right (gap spaced ++ text))))
  refine .located (.after leading fun foundLeft sameLeft =>
    .after (reads_aggregateFunction function _) ?_)
  rintro _ rfl
  refine .after opening.reads_blank fun _ _ => .bind (areExact.requires lexical.1.2 _)
    (fun faithful => (elementsAreRead elements lexical.1.2 faithful).reads lexical.1.2 _) ?_ ?_
  · refine fun found _ => .after fun _ _ => .pure ?_
    rintro ⟨_, same⟩
    simp only [Located.relocate, BodyAggregate.erase, BodyAggregate.mk.injEq] at same
    exact same.2.2.1
  · refine fun faithful found _ => .after (reads_trailingGuard lexical.2 closes spaced) ?_
    refine fun foundRight sameRight => .pure ?_
    rintro ⟨_, same⟩
    simp only [Located.relocate, BodyAggregate.erase, BodyAggregate.mk.injEq, sameLeft, sameRight]
      at same
    rw [BodyAggregate.isFaithful, faithful, (Guard.reread_eq_erase_iff left).mp same.2.1,
      (Guard.reread_eq_erase_iff right).mp same.2.2.2.1]
    rfl

end Parts

/-! Atoms. -/

section Atoms

variable {literal : Parser Literal} {input : List Char} {condition : Prop}

theorem requires_atom_aggregate {content : Aggregate Literal}
    (requires : (aggregate literal).Requires input (·.erase = content.erase) condition) :
    (atom literal).Requires input (·.erase = (Atom.aggregate content).erase) condition := by
  intro offset
  refine (answers_atom_kind literal _).imp fun found next kind same => ?_
  simp only [Atom.erase] at same
  cases found with
  | aggregate found =>
      rw [Atom.erase, Atom.aggregate.injEq] at same
      exact requires offset found next (kind.1 found rfl) same
  | _ => simp [Atom.erase] at same

theorem requires_atom_bodyAggregate {content : BodyAggregate Literal}
    (requires : (bodyAggregate literal).Requires input (·.erase = content.erase) condition) :
    (atom literal).Requires input (·.erase = (Atom.bodyAggregate content).erase) condition := by
  intro offset
  refine (answers_atom_kind literal _).imp fun found next kind same => ?_
  simp only [Atom.erase] at same
  cases found with
  | bodyAggregate found =>
      rw [Atom.erase, Atom.bodyAggregate.injEq] at same
      exact requires offset found next (kind.2 found rfl) same
  | _ => simp [Atom.erase] at same

end Atoms

mutual

/-- Only faithful literals are read as they were written. -/
theorem isExact_of_isLexical : (content : Literal) → (spaced : Bool) → content.isLexical = true →
    IsExact spaced content
  | ⟨sign, atom, origin⟩, spaced, lexical => by
      simp only [Literal.isLexical] at lexical
      exact isExact_of_atom lexical (requires_atom atom spaced lexical)

theorem areExact_of_areLexical : (literals : List Literal) → (spaced : Bool) →
    Literal.areLexical literals = true → literals ≠ [] → AreExact spaced literals
  | [], _, _, nonempty => absurd rfl nonempty
  | first :: others, spaced, lexical, _ => by
      simp only [Literal.areLexical, Bool.and_eq_true] at lexical
      exact areExact_cons lexical.1 lexical.2 (isExact_of_isLexical first _ lexical.1)
        (areExact_of_areLexical others spaced lexical.2)

theorem requires_atom : (content : Atom Literal) → (spaced : Bool) →
    content.isLexical = true → ∀ text, Closes text →
      (atom literal).Requires (content.write (gap spaced ++ text)) (·.erase = content.erase)
        (content.isFaithful = true)
  | .predicate term origin, spaced, lexical, text, closes => by
      simp only [Atom.isLexical, Bool.and_eq_true] at lexical
      rw [Atom.write_predicate]
      refine (reads_atom_predicate lexical.1 lexical.2 closes).requires fun found isRead same => ?_
      have isErased := isRead.symm.trans same
      simp only [Atom.erase, Atom.predicate.injEq, and_true] at isErased
      exact (Term.reread_eq_erase_iff term).mp isErased
  | .boolean value origin, spaced, _, text, _ =>
      (reads_atom_boolean value origin).requires fun _ _ _ => rfl
  | .comparison left relation right origin, spaced, lexical, text, closes => by
      simp only [Atom.isLexical, Bool.and_eq_true] at lexical
      rw [Atom.write_comparison]
      refine (reads_atom_comparison lexical.1 lexical.2 relation
        (closes.endsTerm spaced 0)).requires fun found isRead same => ?_
      have isErased := isRead.symm.trans same
      simp only [Atom.erase, Atom.comparison.injEq, and_true] at isErased
      rw [Atom.isFaithful, (Term.reread_eq_erase_iff left).mp isErased.1,
        (Term.reread_eq_erase_iff right).mp isErased.2.2]
      rfl
  | .aggregate ⟨left, elements, right, origin⟩, spaced, lexical, text, closes => by
      simp only [Atom.isLexical] at lexical
      have lexicalElements : Conditional.areLexical elements = true := by
        simp only [Aggregate.isLexical, Bool.and_eq_true] at lexical
        exact lexical.1.2
      rw [Atom.isFaithful]
      exact requires_atom_aggregate
        (requires_aggregate lexical (conditionalsAreExact elements lexicalElements) closes)
  | .bodyAggregate ⟨function, left, elements, right, origin⟩, spaced, lexical, text, closes => by
      simp only [Atom.isLexical] at lexical
      have lexicalElements : Element.areLexical elements = true := by
        simp only [BodyAggregate.isLexical, Bool.and_eq_true] at lexical
        exact lexical.1.2
      rw [Atom.isFaithful]
      exact requires_atom_bodyAggregate
        (requires_bodyAggregate lexical (elementsAreExact elements lexicalElements) closes)

theorem conditionalsAreExact : (elements : List (Conditional Literal)) →
    Conditional.areLexical elements = true → ConditionalsAreExact elements
  | [], _ => fun _ nonempty => absurd rfl nonempty
  | ⟨literal, condition, origin⟩ :: others, lexical => by
      simp only [Conditional.areLexical, Bool.and_eq_true] at lexical
      have lexicalParts := lexical.1
      simp only [Conditional.isLexical, Bool.and_eq_true] at lexicalParts
      exact conditionalsAreExact_cons lexical.1 lexical.2
        (isExact_of_isLexical literal _ lexicalParts.1)
        (areExact_of_areLexical condition _ lexicalParts.2) (conditionalsAreExact others lexical.2)

theorem elementsAreExact : (elements : List (Element Literal)) →
    Element.areLexical elements = true → ElementsAreExact elements
  | [], _ => fun _ nonempty => absurd rfl nonempty
  | ⟨terms, condition⟩ :: others, lexical => by
      simp only [Element.areLexical, Bool.and_eq_true] at lexical
      have lexicalParts := lexical.1
      simp only [Element.isLexical, Bool.and_eq_true] at lexicalParts
      exact elementsAreExact_cons lexical.1 lexical.2
        (areExact_of_areLexical condition _ lexicalParts.2) (elementsAreExact others lexical.2)

end

end SoftRules.Grammar
