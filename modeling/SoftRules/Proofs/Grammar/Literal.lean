import SoftRules.Proofs.Grammar.Atom

/-!
How literals are read back from their texts. The main statement is `isRead_of_isFaithful`: a lexical
literal that is faithful is read as it was written.
-/

set_option autoImplicit false

namespace SoftRules.Grammar

open SoftRules.Parser

/-! Signs. -/

section Sign

variable {text : List Char}

theorem reads_not (solid : Solid text) :
    negation.Reads ("not ".toList ++ text) text fun _ => True :=
  .bind (.word "not".toList (' ' :: text)) fun _ _ => solid.reads_space1

theorem rejects_not (refused : startsNegation text = false) : negation.Rejects text := by
  by_cases isWord : "not".toList <+: text
  · obtain ⟨behind, rfl⟩ := isWord
    have solid : Solid behind := by
      intro first isFirst
      cases behind with
      | nil => cases isFirst
      | cons next behind =>
          cases isFirst
          simpa [startsNegation] using refused
    exact .after (.word _ _) fun _ _ => solid.rejects_space1
  · exact .bind (rejects_word isWord)

theorem reads_sign {symbol : Sign} (solid : Solid text)
    (unsigned : symbol = .doublyNegated ∨ startsNegation text = false) :
    sign.Reads (symbol.render.toList ++ text) text (· = symbol) := by
  refine .firstOf ?_
  cases symbol with
  | plain =>
      have rejects := rejects_not (unsigned.resolve_left (by simp))
      exact .tail (.bind rejects) (.tail (.bind rejects) (.head (.pure rfl)))
  | negated =>
      have rejects := rejects_not (unsigned.resolve_left (by simp))
      exact .tail (.after (reads_not solid) fun _ _ => .bind rejects)
        (.head (.bind (reads_not solid) fun _ _ => .pure rfl))
  | doublyNegated =>
      have word : Solid ("not ".toList ++ text) := solid_cons (by decide) (by decide)
      exact .head (.bind (reads_not word) fun _ _ => .bind (reads_not solid) fun _ _ => .pure rfl)

theorem startsNegation_append (start : List Char) (closes : Closes text) :
    startsNegation (start ++ text) = startsNegation start := by
  obtain ⟨delimiter, others, rfl, isEnd, _⟩ := closes
  simp only [isDelimiter, Bool.or_eq_true, beq_iff_eq] at isEnd
  rcases start with _ | ⟨first, _ | ⟨second, _ | ⟨third, _ | ⟨fourth, start⟩⟩⟩⟩
  case cons.cons.cons.cons => simp [startsNegation, List.isPrefixOf]
  all_goals
    rcases isEnd with (((rfl | rfl) | rfl) | rfl) | rfl <;>
      simp [startsNegation, isSpace, List.isPrefixOf]

end Sign

/-! Where literals start. -/

section Start

variable {text : List Char}

def isLiteralStart (character : Char) : Bool :=
  isTermStart character || character == '#' || character == '\x7b'

def StartsLiteral (text : List Char) : Prop :=
  ∃ first others, text = first :: others ∧ isLiteralStart first = true

theorem StartsTerm.startsLiteral (starts : StartsTerm text) : StartsLiteral text := by
  obtain ⟨first, others, shape, isStart⟩ := starts
  exact ⟨first, others, shape, by simp [isLiteralStart, isStart]⟩

theorem StartsLiteral.head_ne (starts : StartsLiteral text) {character : Char}
    (other : isLiteralStart character = false) : character ∉ text.head? := by
  obtain ⟨first, others, rfl, isStart⟩ := starts
  intro isFirst
  cases isFirst
  rw [isStart] at other
  cases other

theorem StartsLiteral.solid (starts : StartsLiteral text) : Solid text := by
  obtain ⟨first, others, rfl, isStart⟩ := starts
  simp only [isLiteralStart, Bool.or_eq_true, beq_iff_eq] at isStart
  rcases isStart with (isStart | rfl) | rfl
  · exact StartsTerm.solid ⟨first, others, rfl, isStart⟩
  · exact solid_cons (by decide) (by decide)
  · exact solid_cons (by decide) (by decide)

theorem startsLiteral_writeLeft {guard : Option Guard} (lexical : Guard.isLexical guard = true)
    (starts : StartsLiteral text) : StartsLiteral (Guard.writeLeft guard text) := by
  cases guard with
  | none => exact starts
  | some guard =>
      rw [Guard.writeLeft_some]
      exact (startsTerm_write guard.term lexical _).startsLiteral

theorem startsLiteral_atom {atom : Atom Literal} (lexical : atom.isLexical = true)
    (rest : List Char) : StartsLiteral (atom.write rest) := by
  cases atom with
  | predicate term origin =>
      simp only [Atom.isLexical, Bool.and_eq_true] at lexical
      rw [Atom.write_predicate]
      exact (startsTerm_write term lexical.2 _).startsLiteral
  | boolean value origin =>
      rw [Atom.write_boolean]
      exact ⟨'#', _, rfl, rfl⟩
  | comparison left relation right origin =>
      simp only [Atom.isLexical, Bool.and_eq_true] at lexical
      rw [Atom.write_comparison]
      exact (startsTerm_write left lexical.1 _).startsLiteral
  | aggregate content =>
      obtain ⟨left, elements, right, origin⟩ := content
      simp only [Atom.isLexical, Aggregate.isLexical, Bool.and_eq_true] at lexical
      rw [Atom.write_aggregate]
      exact startsLiteral_writeLeft lexical.1.1 ⟨'\x7b', _, rfl, rfl⟩
  | bodyAggregate content =>
      obtain ⟨function, left, elements, right, origin⟩ := content
      simp only [Atom.isLexical, BodyAggregate.isLexical, Bool.and_eq_true] at lexical
      rw [Atom.write_bodyAggregate]
      obtain ⟨others, shape⟩ := function_cons function
      refine startsLiteral_writeLeft lexical.1.1 ?_
      simp only [shape]
      exact ⟨'#', _, rfl, rfl⟩

theorem sign_cons {sign : Sign} (signed : sign ≠ .plain) (text : List Char) :
    ∃ others, sign.render.toList ++ text = 'n' :: others := by
  cases sign with
  | plain => exact absurd rfl signed
  | negated => exact ⟨_, rfl⟩
  | doublyNegated => exact ⟨_, rfl⟩

theorem startsLiteral_literal {literal : Literal} (lexical : literal.isLexical = true)
    (rest : List Char) : StartsLiteral (literal.write rest) := by
  rw [Literal.write_eq]
  by_cases plain : literal.sign = .plain
  · rw [plain]
    exact startsLiteral_atom (literal.isLexical_eq ▸ lexical) rest
  · obtain ⟨others, shape⟩ := sign_cons plain (literal.atom.write rest)
    exact ⟨'n', others, shape, rfl⟩

theorem startsLiteral_conditional {content : Conditional Literal}
    (lexical : content.isLexical = true) (rest : List Char) :
    StartsLiteral (content.write rest) := by
  obtain ⟨literal, condition, origin⟩ := content
  simp only [Conditional.isLexical, Bool.and_eq_true] at lexical
  rw [Conditional.write_eq]
  exact startsLiteral_literal lexical.1 _

theorem startsTerm_element {content : Element Literal} (lexical : content.isLexical = true)
    (rest : List Char) : StartsTerm (content.write rest) := by
  obtain ⟨terms, condition⟩ := content
  simp only [Element.isLexical, Bool.and_eq_true, Bool.not_eq_true', List.isEmpty_eq_false_iff]
    at lexical
  rw [Element.write_eq]
  have lexicals := (Term.areLexical_iff terms).mp lexical.1.2
  rcases terms with _ | ⟨first, _ | ⟨second, others⟩⟩
  · exact absurd rfl lexical.1.1
  · exact startsTerm_write first (lexicals first (List.mem_cons_self ..)) _
  · exact startsTerm_write first (lexicals first (List.mem_cons_self ..)) _

theorem rejects_literal (refused : ∀ first ∈ text.head?, isTermStart first = false)
    (noHash : '#' ∉ text.head?) (noBrace : '\x7b' ∉ text.head?) : literal.Rejects text := by
  rw [literal_eq]
  have noSign : negation.Rejects text := by
    refine .bind (rejects_word ?_)
    rintro ⟨others, rfl⟩
    cases refused 'n' rfl
  have plain : sign.Reads text text (· = .plain) :=
    .firstOf (.tail (.bind noSign) (.tail (.bind noSign) (.head (.pure rfl))))
  exact .located (.expecting _ (.after plain fun _ _ =>
    .bind (rejects_atom refused noHash noBrace)))

end Start

/-! Literals and their lists. -/

section Parts

variable {text : List Char} {spaced : Bool}

/-- The literal is read as it was written in front of each text that closes it. -/
def IsRead (spaced : Bool) (content : Literal) : Prop :=
  ∀ text, Closes text → literal.Reads (content.write (gap spaced ++ text)) (gap spaced ++ text)
    fun found => found.erase = content.erase

theorem isRead_of_atom {sign : Sign} {content : Atom Literal} {origin : Origin}
    (lexical : content.isLexical = true)
    (unsigned : sign = .doublyNegated ∨
      startsNegation (content.render.toList ++ gap spaced) = false)
    (reads : ∀ text, Closes text → (atom literal).Reads (content.write (gap spaced ++ text))
      (gap spaced ++ text) fun found => found.erase = content.erase) :
    IsRead spaced ⟨sign, content, origin⟩ := by
  intro text closes
  rw [literal_eq, Literal.write_eq]
  have unsigned : sign = .doublyNegated ∨
      startsNegation (content.write (gap spaced ++ text)) = false := by
    rwa [Atom.write, ← List.append_assoc, startsNegation_append _ closes]
  refine .located (.expecting _ (.bind
    (reads_sign (startsLiteral_atom lexical _).solid unsigned) ?_))
  rintro _ rfl
  refine .bind (reads text closes) fun found same => .pure fun _ => ?_
  rw [Literal.erase, ← same]
  rfl

/-- Several literals are read one by one. -/
def AreRead (spaced : Bool) (literals : List Literal) : Prop :=
  ∀ text, Closes text → ReadsAll literal Literal.write [',', ' ']
    (fun content found => found.erase = content.erase) literals (gap spaced ++ text)

theorem areRead_cons {first : Literal} {others : List Literal}
    (isRead : IsRead (others.isEmpty && spaced) first)
    (areRead : others ≠ [] → AreRead spaced others) :
    AreRead spaced (first :: others) := by
  intro text closes
  cases others with
  | nil => exact .last (isRead text closes)
  | cons second others =>
      exact .cons (isRead _ (closes_cons (by decide) (by decide) _)) (areRead (by simp) text closes)

/-- Behind a condition stands neither a further condition nor a further literal. -/
theorem reads_condition {literals : List Literal} (lexical : Literal.areLexical literals = true)
    (areRead : literals ≠ [] → AreRead spaced literals) (closes : Closes text)
    (noColon : ':' ∉ text.head?) (noComma : literals ≠ [] → ',' ∉ text.head?) :
    (condition literal).Reads (writeCondition literals (gap spaced ++ text))
      (gap spaced ++ text) fun found =>
        Literal.eraseAll found = Literal.eraseAll literals := by
  have noToken (spelling : String) (first : Char) (shape : spelling.toList = [first])
      (refused : first ∉ text.head?) : (spacedToken spelling).Rejects (gap spaced ++ text) := by
    refine closes.solid.rejects_spacedToken ?_ (gap_areBlank spaced)
    rintro ⟨others, rfl⟩
    rw [shape] at refused
    exact refused rfl
  by_cases nonempty : literals = []
  · subst nonempty
    refine .bind (.optional_none (.bind (noToken ":" ':' rfl noColon))) ?_
    rintro _ rfl
    exact .pure rfl
  · rw [writeCondition_of_ne_nil nonempty]
    have lexicals := (Literal.areLexical_iff literals).mp lexical
    have solid : ∀ content ∈ literals, ∀ text, Solid (Literal.write content text) :=
      fun content member text => (startsLiteral_literal (lexicals content member) text).solid
    have colon : (spacedToken ":").Reads
        (':' :: ' ' :: writeAll [',', ' '] Literal.write literals (gap spaced ++ text))
        (writeAll [',', ' '] Literal.write literals (gap spaced ++ text)) fun _ => True :=
      (solid_writeAll nonempty solid _).reads_delimiter rfl (by decide) (by decide)
    have separates : ∀ content ∈ literals, ∀ text,
        (spacedToken ",").Reads ([',', ' '] ++ Literal.write content text)
          (Literal.write content text) fun _ => True := fun content member text =>
      (solid content member text).reads_delimiter rfl (by decide) (by decide)
    have reads := ((areRead nonempty text closes).row separates (by simp)).separated1
      (.bind (noToken "," ',' rfl (noComma nonempty)))
    refine .bind (.optional_some (.bind colon fun _ _ => reads)) ?_
    rintro _ ⟨found, rfl, same⟩
    refine .pure ?_
    rw [Option.getD_some, Literal.eraseAll_eq, Literal.eraseAll_eq]
    exact map_eq_of_forall₂ same

theorem writeCondition_shape (condition : List Literal) (closes : Closes text) :
    ∃ behind, Closes behind ∧ writeCondition condition (gap spaced ++ text) =
      gap (condition.isEmpty && spaced) ++ behind := by
  by_cases nonempty : condition = []
  · subst nonempty
    exact ⟨text, closes, rfl⟩
  · rw [writeCondition_of_ne_nil nonempty, List.isEmpty_eq_false_iff.mpr nonempty]
    exact ⟨_, closes_cons (by decide) (by decide) _, rfl⟩

theorem reads_conditional {content : Conditional Literal}
    (lexical : Literal.areLexical content.condition = true)
    (isRead : IsRead (content.condition.isEmpty && spaced) content.literal)
    (areRead : content.condition ≠ [] → AreRead spaced content.condition) (closes : Closes text)
    (noColon : ':' ∉ text.head?) (noComma : content.condition ≠ [] → ',' ∉ text.head?) :
    (conditional literal).Reads (content.write (gap spaced ++ text)) (gap spaced ++ text)
      fun found => found.erase = content.erase := by
  have first : literal.Reads (content.write (gap spaced ++ text))
      (writeCondition content.condition (gap spaced ++ text))
      fun found => found.erase = content.literal.erase := by
    obtain ⟨behind, closesBehind, shape⟩ :=
      @writeCondition_shape text spaced content.condition closes
    rw [Conditional.write_eq, shape]
    exact isRead behind closesBehind
  refine .located (.bind first fun found sameLiteral => ?_)
  refine .bind (reads_condition lexical areRead closes noColon noComma) fun literals same => ?_
  refine .pure fun origin => ?_
  obtain ⟨literal, condition, origin⟩ := content
  simp only [Conditional.erase]
  rw [← same, ← sameLiteral]
  rfl

theorem reads_element_terms {content : Element Literal} (lexical : content.isLexical = true)
    (closes : Closes text) (noComma : ',' ∉ text.head?) :
    (separated1 (spacedToken ",") term).Reads (content.write (gap spaced ++ text))
      (writeCondition content.condition (gap spaced ++ text))
      fun found => Term.eraseAll found = Term.rereadAll content.terms := by
  obtain ⟨terms, condition⟩ := content
  simp only [Element.isLexical, Bool.and_eq_true, Bool.not_eq_true', List.isEmpty_eq_false_iff]
    at lexical
  rw [Element.write_eq]
  have solid := closes.solid
  have ends : EndsTerm 0 (writeCondition condition (gap spaced ++ text)) := by
    by_cases nonempty : condition = []
    · rw [nonempty]
      exact closes.endsTerm spaced 0
    · rw [writeCondition_of_ne_nil nonempty]
      exact endsTerm_break (by decide) 0 _
  have last : (do spacedToken ","; term : Parser Term).Rejects
      (writeCondition condition (gap spaced ++ text)) := by
    by_cases nonempty : condition = []
    · rw [nonempty]
      refine .bind (solid.rejects_spacedToken ?_ (gap_areBlank spaced))
      rintro ⟨others, rfl⟩
      exact noComma rfl
    · rw [writeCondition_of_ne_nil nonempty]
      exact .bind (rejects_comma (solid_cons (by decide) (by decide)) (by simp))
  refine ((allRead_of_areLexical terms lexical.1.2).separated1 lexical.1.1 ends last).imp ?_
  intro found same
  rw [Term.eraseAll_eq, Term.rereadAll_eq, same]

theorem reads_element {content : Element Literal} (lexical : content.isLexical = true)
    (areRead : content.condition ≠ [] → AreRead spaced content.condition) (closes : Closes text)
    (noColon : ':' ∉ text.head?) (noComma : ',' ∉ text.head?) :
    (element literal).Reads (content.write (gap spaced ++ text)) (gap spaced ++ text)
      fun found => found.erase =
        ⟨Term.rereadAll content.terms, Literal.eraseAll content.condition⟩ := by
  have lexicalCondition : Literal.areLexical content.condition = true := by
    obtain ⟨terms, condition⟩ := content
    simp only [Element.isLexical, Bool.and_eq_true] at lexical
    exact lexical.2
  refine .bind (reads_element_terms lexical closes noComma) fun found sameTerms => ?_
  refine .bind (reads_condition lexicalCondition areRead closes noColon fun _ => noComma) ?_
  intro literals same
  refine .pure ?_
  simp only [Element.erase]
  rw [← same, sameTerms]

/-- Conditional literals in braces, of which the last one has a blank behind it. -/
def ConditionalsAreRead (elements : List (Conditional Literal)) : Prop :=
  ∀ rest, elements ≠ [] → ReadsAll (conditional literal) Conditional.write [';', ' ']
    (fun content found => found.erase = content.erase) elements (' ' :: '\x7d' :: rest)

theorem ConditionalsAreRead.reads {elements : List (Conditional Literal)}
    (areRead : ConditionalsAreRead elements) (lexical : Conditional.areLexical elements = true)
    (rest : List Char) :
    (braced (separated (spacedToken ";") (conditional literal))).Reads
      (writeElements Conditional.write elements rest) rest
      fun found => Conditional.eraseAll found = Conditional.eraseAll elements := by
  have lexicals := (Conditional.areLexical_iff elements).mp lexical
  have noLiteral : literal.Rejects ('\x7d' :: rest) :=
    rejects_literal (by simp [isTermStart]) (by simp) (by simp)
  refine (reads_elements (areRead rest)
    (fun element member text => (startsLiteral_conditional (lexicals element member) text).solid)
    (.located (.bind noLiteral))).imp fun found same => ?_
  rw [Conditional.eraseAll_eq, Conditional.eraseAll_eq]
  exact map_eq_of_forall₂ same

theorem conditionalsAreRead_cons {first : Conditional Literal}
    {others : List (Conditional Literal)} (lexical : Literal.areLexical first.condition = true)
    (isRead : IsRead (first.condition.isEmpty && others.isEmpty) first.literal)
    (areRead : first.condition ≠ [] → AreRead others.isEmpty first.condition)
    (othersAreRead : ConditionalsAreRead others) : ConditionalsAreRead (first :: others) := by
  intro rest _
  cases others with
  | nil =>
      have behind : Closes ('\x7d' :: rest) := closes_cons (by decide) (by decide) rest
      have reads := reads_conditional lexical isRead areRead behind (by simp) (by simp)
      exact .last reads
  | cons second others =>
      have behind := closes_cons (by decide : isDelimiter ';' = true) (by decide)
        (' ' :: writeAll [';', ' '] Conditional.write (second :: others) (' ' :: '\x7d' :: rest))
      have reads := reads_conditional lexical isRead areRead behind (by simp) (by simp)
      exact .cons reads (othersAreRead rest (by simp))

theorem reads_faithful_aggregate {content : Aggregate Literal} (lexical : content.isLexical = true)
    (faithful : content.isFaithful = true) (areRead : ConditionalsAreRead content.elements)
    (closes : Closes text) :
    (aggregate literal).Reads ((Atom.aggregate content).write (gap spaced ++ text))
      (gap spaced ++ text) fun found => found.erase = content.erase := by
  obtain ⟨left, elements, right, origin⟩ := content
  simp only [Aggregate.isLexical, Bool.and_eq_true] at lexical
  simp only [Aggregate.isFaithful, Bool.and_eq_true] at faithful
  rw [Aggregate.erase, ← (Guard.reread_eq_erase_iff left).mpr faithful.1.1,
    ← (Guard.reread_eq_erase_iff right).mpr faithful.2]
  exact reads_aggregate lexical.1.1 lexical.2 (areRead.reads lexical.1.2) closes

/-- Elements of body aggregates in braces, of which the last one has a blank behind it. -/
def ElementsAreRead (elements : List (Element Literal)) : Prop :=
  ∀ rest, elements ≠ [] → ReadsAll (element literal) Element.write [';', ' ']
    (fun content found => found.erase = content.erase) elements (' ' :: '\x7d' :: rest)

theorem ElementsAreRead.reads {elements : List (Element Literal)}
    (areRead : ElementsAreRead elements) (lexical : Element.areLexical elements = true)
    (rest : List Char) :
    (braced (separated (spacedToken ";") (element literal))).Reads
      (writeElements Element.write elements rest) rest
      fun found => Element.eraseAll found = Element.eraseAll elements := by
  have lexicals := (Element.areLexical_iff elements).mp lexical
  have noTerm : term.Rejects ('\x7d' :: rest) := rejects_term (by simp [isTermStart])
  refine (reads_elements (areRead rest)
    (fun element member text => (startsTerm_element (lexicals element member) text).solid)
    (.bind (.bind noTerm))).imp fun found same => ?_
  rw [Element.eraseAll_eq, Element.eraseAll_eq]
  exact map_eq_of_forall₂ same

theorem elementsAreRead_cons {first : Element Literal} {others : List (Element Literal)}
    (lexical : first.isLexical = true) (faithful : Term.areFaithful first.terms = true)
    (areRead : first.condition ≠ [] → AreRead others.isEmpty first.condition)
    (othersAreRead : ElementsAreRead others) : ElementsAreRead (first :: others) := by
  have isErased : (⟨Term.rereadAll first.terms, Literal.eraseAll first.condition⟩ :
      Element Literal) = first.erase := by
    obtain ⟨terms, condition⟩ := first
    rw [Element.erase, (Term.rereadAll_eq_eraseAll_iff terms).mpr faithful]
  intro rest _
  cases others with
  | nil =>
      have behind : Closes ('\x7d' :: rest) := closes_cons (by decide) (by decide) rest
      have reads := reads_element lexical areRead behind (by simp) (by simp)
      rw [isErased] at reads
      exact .last reads
  | cons second others =>
      have behind := closes_cons (by decide : isDelimiter ';' = true) (by decide)
        (' ' :: writeAll [';', ' '] Element.write (second :: others) (' ' :: '\x7d' :: rest))
      have reads := reads_element lexical areRead behind (by simp) (by simp)
      rw [isErased] at reads
      exact .cons reads (othersAreRead rest (by simp))

end Parts

mutual

/-- Faithful literals are read as they were written. -/
theorem isRead_of_isFaithful : (content : Literal) → (spaced : Bool) →
    content.isLexical = true → content.isFaithful spaced = true → IsRead spaced content
  | ⟨sign, atom, origin⟩, spaced, lexical, faithful => by
      simp only [Literal.isLexical] at lexical
      simp only [Literal.isFaithful, Bool.and_eq_true, Bool.or_eq_true, beq_iff_eq,
        Bool.not_eq_true'] at faithful
      exact isRead_of_atom lexical faithful.1 (reads_atom atom spaced lexical faithful.2)

theorem areRead_of_areFaithful : (literals : List Literal) → (spaced : Bool) →
    Literal.areLexical literals = true → Literal.areFaithful spaced literals = true →
    literals ≠ [] → AreRead spaced literals
  | [], _, _, _, nonempty => absurd rfl nonempty
  | first :: others, spaced, lexical, faithful, _ => by
      simp only [Literal.areLexical, Bool.and_eq_true] at lexical
      simp only [Literal.areFaithful, Bool.and_eq_true] at faithful
      exact areRead_cons (isRead_of_isFaithful first _ lexical.1 faithful.1)
        (areRead_of_areFaithful others spaced lexical.2 faithful.2)

theorem reads_atom : (content : Atom Literal) → (spaced : Bool) → content.isLexical = true →
    content.isFaithful = true → ∀ text, Closes text →
      (atom literal).Reads (content.write (gap spaced ++ text)) (gap spaced ++ text) fun found =>
        found.erase = content.erase
  | .predicate term origin, spaced, lexical, faithful, text, closes => by
      simp only [Atom.isLexical, Bool.and_eq_true] at lexical
      have isErased := (Term.reread_eq_erase_iff term).mpr faithful
      rw [Atom.write_predicate, Atom.erase, ← isErased]
      exact reads_atom_predicate lexical.1 lexical.2 closes
  | .boolean value origin, spaced, _, _, text, _ => reads_atom_boolean value origin
  | .comparison left relation right origin, spaced, lexical, faithful, text, closes => by
      simp only [Atom.isLexical, Bool.and_eq_true] at lexical
      simp only [Atom.isFaithful, Bool.and_eq_true] at faithful
      rw [Atom.write_comparison, Atom.erase, ← (Term.reread_eq_erase_iff left).mpr faithful.1,
        ← (Term.reread_eq_erase_iff right).mpr faithful.2]
      exact reads_atom_comparison lexical.1 lexical.2 relation (closes.endsTerm spaced 0)
  | .aggregate ⟨left, elements, right, origin⟩, spaced, lexical, faithful, text, closes => by
      simp only [Atom.isLexical, Aggregate.isLexical, Bool.and_eq_true] at lexical
      simp only [Atom.isFaithful, Aggregate.isFaithful, Bool.and_eq_true] at faithful
      have areRead := conditionalsAreRead elements lexical.1.2 faithful.1.2
      simp only [Atom.erase, Aggregate.erase]
      rw [← (Guard.reread_eq_erase_iff left).mpr faithful.1.1,
        ← (Guard.reread_eq_erase_iff right).mpr faithful.2]
      exact reads_atom_aggregate lexical.1.1 lexical.2 (areRead.reads lexical.1.2) closes
  | .bodyAggregate ⟨function, left, elements, right, origin⟩, spaced, lexical, faithful, text,
      closes => by
      simp only [Atom.isLexical, BodyAggregate.isLexical, Bool.and_eq_true] at lexical
      simp only [Atom.isFaithful, BodyAggregate.isFaithful, Bool.and_eq_true] at faithful
      have areRead := elementsAreRead elements lexical.1.2 faithful.1.2
      simp only [Atom.erase, BodyAggregate.erase]
      rw [← (Guard.reread_eq_erase_iff left).mpr faithful.1.1,
        ← (Guard.reread_eq_erase_iff right).mpr faithful.2]
      exact reads_atom_bodyAggregate lexical.1.1 lexical.2 (areRead.reads lexical.1.2) closes

theorem conditionalsAreRead : (elements : List (Conditional Literal)) →
    Conditional.areLexical elements = true → Conditional.areFaithful elements = true →
    ConditionalsAreRead elements
  | [], _, _ => fun _ nonempty => absurd rfl nonempty
  | ⟨literal, condition, origin⟩ :: others, lexical, faithful => by
      simp only [Conditional.areLexical, Conditional.isLexical, Bool.and_eq_true] at lexical
      simp only [Conditional.areFaithful, Conditional.isFaithful, Bool.and_eq_true] at faithful
      exact conditionalsAreRead_cons lexical.1.2
        (isRead_of_isFaithful literal _ lexical.1.1 faithful.1.1)
        (areRead_of_areFaithful condition _ lexical.1.2 faithful.1.2)
        (conditionalsAreRead others lexical.2 faithful.2)

theorem elementsAreRead : (elements : List (Element Literal)) →
    Element.areLexical elements = true → Element.areFaithful elements = true →
    ElementsAreRead elements
  | [], _, _ => fun _ nonempty => absurd rfl nonempty
  | ⟨terms, condition⟩ :: others, lexical, faithful => by
      simp only [Element.areLexical, Bool.and_eq_true] at lexical
      simp only [Element.areFaithful, Element.isFaithful, Bool.and_eq_true] at faithful
      have lexicalCondition : Literal.areLexical condition = true := by
        have lexicalFirst := lexical.1
        simp only [Element.isLexical, Bool.and_eq_true] at lexicalFirst
        exact lexicalFirst.2
      exact elementsAreRead_cons lexical.1 faithful.1.1
        (areRead_of_areFaithful condition _ lexicalCondition faithful.1.2)
        (elementsAreRead others lexical.2 faithful.2)

end

theorem reads_faithful_conditional {text : List Char} {spaced : Bool}
    {content : Conditional Literal} (lexical : content.isLexical = true)
    (faithful : content.isFaithful spaced = true)
    (closes : Closes text) (noColon : ':' ∉ text.head?)
    (noComma : content.condition ≠ [] → ',' ∉ text.head?) :
    (conditional literal).Reads (content.write (gap spaced ++ text)) (gap spaced ++ text)
      fun found => found.erase = content.erase := by
  obtain ⟨literal, condition, origin⟩ := content
  simp only [Conditional.isLexical, Bool.and_eq_true] at lexical
  simp only [Conditional.isFaithful, Bool.and_eq_true] at faithful
  exact reads_conditional lexical.2 (isRead_of_isFaithful literal _ lexical.1 faithful.1)
    (areRead_of_areFaithful condition _ lexical.2 faithful.2) closes noColon noComma

theorem reads_faithful_element {text : List Char} {spaced : Bool} {content : Element Literal}
    (lexical : content.isLexical = true) (faithful : content.isFaithful spaced = true)
    (closes : Closes text) (noColon : ':' ∉ text.head?) (noComma : ',' ∉ text.head?) :
    (element literal).Reads (content.write (gap spaced ++ text)) (gap spaced ++ text)
      fun found => found.erase = content.erase := by
  obtain ⟨terms, condition⟩ := content
  simp only [Element.isFaithful, Bool.and_eq_true] at faithful
  have lexicalCondition : Literal.areLexical condition = true := by
    simp only [Element.isLexical, Bool.and_eq_true] at lexical
    exact lexical.2
  rw [Element.erase, ← (Term.rereadAll_eq_eraseAll_iff terms).mpr faithful.1]
  exact reads_element lexical (areRead_of_areFaithful condition _ lexicalCondition faithful.2)
    closes noColon noComma

end SoftRules.Grammar
