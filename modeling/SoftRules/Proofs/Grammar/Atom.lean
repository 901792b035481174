import SoftRules.Proofs.Grammar.Guard

/-!
How atoms are read back from their texts.

The alternatives of an atom are tried in a fixed order. All but one of them start with a term or may
do so, hence the lemmas about an alternative come with one about the texts that it rejects behind a
bound that it has read already.
-/

set_option autoImplicit false

namespace SoftRules.Grammar

open SoftRules.Parser

/-! Rejections. -/

section Rejections

variable {literal : Parser Literal} {text middle : List Char} {found : Option Guard → Prop}

theorem rejects_boolean (noTrue : ¬ "#true".toList <+: text)
    (noFalse : ¬ "#false".toList <+: text) :
    boolean.Rejects text :=
  .located (rejects_firstOf (.cons (.bind (rejects_word noTrue))
    (.cons (.bind (rejects_word noFalse)) .nil)))

theorem rejects_boolean_head (refused : '#' ∉ text.head?) : boolean.Rejects text := by
  apply rejects_boolean
  · rintro ⟨others, rfl⟩
    exact refused rfl
  · rintro ⟨others, rfl⟩
    exact refused rfl

theorem rejects_aggregate (reads : leadingGuard.Reads text middle found)
    (refused : '\x7b' ∉ middle.head?) : (aggregate literal).Rejects text :=
  .located (.after reads fun _ _ => .bind (rejects_braced refused))

theorem rejects_aggregateFunction (refused : '#' ∉ text.head?) : aggregateFunction.Rejects text :=
  .convert (.after .offset fun _ _ => .after .rest fun _ _ => .bind (.bind (rejects_char refused)))

theorem rejects_bodyAggregate (reads : leadingGuard.Reads text middle found)
    (refused : '#' ∉ middle.head?) : (bodyAggregate literal).Rejects text :=
  .located (.after reads fun _ _ => .bind (rejects_aggregateFunction refused))

theorem rejects_predicate (refused : ∀ first ∈ text.head?, isTermStart first = false) :
    predicate.Rejects text := by
  have classes (first : Char) (isFirst : first ∈ text.head?) :=
    isTermStart_classes (refused first isFirst)
  have noMinus : '-' ∉ text.head? := fun isMinus => (classes '-' isMinus).2.2.2.2.2 rfl
  have noSign : (do char '-'; space : Parser Unit).Rejects text := .bind (rejects_char noMinus)
  have noFunction : (functionTerm term).Rejects text :=
    .located (.bind (rejects_name fun first isFirst => (classes first isFirst).2.1))
  exact .located (.after (.optional_none noSign) fun _ _ => .bind noFunction)

/-- What starts neither a term nor a boolean nor an aggregate does not start an atom. -/
theorem rejects_atom (refused : ∀ first ∈ text.head?, isTermStart first = false)
    (noHash : '#' ∉ text.head?) (noBrace : '\x7b' ∉ text.head?) : (atom literal).Rejects text := by
  have leading := reads_leadingGuard_none refused
  exact .expecting _ (rejects_firstOf (.cons (rejects_boolean_head noHash)
    (.cons (.bind (rejects_aggregate leading noBrace))
      (.cons (.bind (rejects_bodyAggregate leading noHash))
        (.cons (.located (.bind (rejects_term refused)))
          (.cons (rejects_predicate refused) .nil))))))

end Rejections

/-! Atoms without elements. -/

section Simple

variable {literal : Parser Literal} {text rest : List Char} {content left right : Term}
  {spaced : Bool}

theorem reads_atom_boolean (value : Bool) (origin : Origin) :
    (atom literal).Reads ((Atom.boolean value origin).write rest) rest fun found =>
      found.erase = .boolean value := by
  refine .expecting _ (.firstOf (.head (.located (.firstOf ?_))))
  cases value with
  | true => exact .head (.bind (.word "#true".toList rest) fun _ _ => .pure fun _ => rfl)
  | false =>
      have noTrue : ¬ "#true".toList <+: "#false".toList ++ rest := by
        rintro ⟨others, shape⟩
        cases shape
      exact .tail (.bind (rejects_word noTrue))
        (.head (.bind (.word "#false".toList rest) fun _ _ => .pure fun _ => rfl))

/-- The terms of atoms are function terms with a name, which may be negated. -/
theorem isAtom_cases (isAtom : content.isAtom = true) (lexical : content.isLexical = true) :
    ∃ name arguments origin, isName Char.isLower name = true ∧ AllRead arguments ∧
      (content = .function name arguments origin ∨
        ∃ outer, content = .operation .negation [.function name arguments origin] outer) := by
  have named {term : Term} (isNamed : term.isNamedFunction = true)
      (lexical : term.isLexical = true) :
      ∃ name arguments origin, isName Char.isLower name = true ∧ AllRead arguments ∧
        term = .function name arguments origin := by
    cases term with
    | function name arguments origin =>
        simp only [Term.isLexical, Bool.and_eq_true, Bool.or_eq_true, beq_iff_eq] at lexical
        simp only [Term.isNamedFunction, bne_iff_ne] at isNamed
        exact ⟨name, arguments, origin, lexical.1.resolve_left isNamed,
          allRead_of_areLexical arguments lexical.2, rfl⟩
    | _ => cases isNamed
  unfold Term.isAtom at isAtom
  split at isAtom
  · next operand outer =>
      simp only [Term.isLexical, Bool.and_eq_true] at lexical
      obtain ⟨name, arguments, origin, valid, reads, rfl⟩ := named isAtom lexical.2
      exact ⟨name, arguments, origin, valid, reads, .inr ⟨outer, rfl⟩⟩
  · obtain ⟨name, arguments, origin, valid, reads, rfl⟩ := named isAtom lexical
    exact ⟨name, arguments, origin, valid, reads, .inl rfl⟩

theorem reads_predicate (isAtom : content.isAtom = true) (lexical : content.isLexical = true)
    (ends : EndsTerm operandStrength rest) :
    predicate.Reads (content.write rest) rest fun found =>
      found.erase = .predicate content.reread := by
  obtain ⟨name, arguments, origin, valid, reads, shape⟩ := isAtom_cases isAtom lexical
  obtain ⟨first, others, start, isLower⟩ := write_function_cons valid arguments origin rest
  have readsFunction := reads_functionTerm valid reads origin ends.name ends.bracket
  refine .located ?_
  rcases shape with rfl | ⟨outer, rfl⟩
  · have noSign : (do char '-'; space : Parser Unit).Rejects
        ((Term.function name arguments origin).write rest) := by
      refine .bind (rejects_char ?_)
      rw [start]
      intro isMinus
      cases isMinus
      cases isLower
    refine .bind (.optional_none noSign) ?_
    rintro _ rfl
    refine .bind readsFunction fun found same => .pure fun _ => ?_
    rw [← same]
    rfl
  · have bare : (Term.function name arguments origin).bindsWeakerThanUnary = false := rfl
    rw [Term.write_negation, bare, Term.writeOperand_false]
    have starts : StartsTerm ((Term.function name arguments origin).write rest) := by
      refine ⟨first, others, start, ?_⟩
      simp [isTermStart, Char.isAlphanum, isAlpha_eq, isLower]
    have sign : (do char '-'; space : Parser Unit).Reads
        ('-' :: (Term.function name arguments origin).write rest)
        ((Term.function name arguments origin).write rest) fun _ => True :=
      .bind (.char _ _) fun _ _ => starts.solid.reads_no_space
    refine .bind (.optional_some sign) ?_
    rintro _ ⟨_, rfl, _⟩
    refine .bind readsFunction fun found same => .pure fun _ => ?_
    have unsigned : Term.signedNumber? .negation [.function name arguments origin] = none := rfl
    simp only [Term.reread, unsigned, Term.rereadAll] at same ⊢
    rw [← same]
    rfl

/-- A term in front of a delimiter is not the bound of an aggregate. -/
theorem leadingGuard_delimiter {input : List Char} {good : Term → Prop}
    (reads : term.Reads input (gap spaced ++ text) good) (closes : Closes text) :
    ∃ middle isGuard, leadingGuard.Reads input middle isGuard ∧ '\x7b' ∉ middle.head? ∧
      '#' ∉ middle.head? :=
  ⟨text, _, reads_leadingGuard_bare spaced reads closes.solid
    fun first isFirst => (isDelimiter_classes (closes.head first isFirst)).2.2.1,
    closes.head_ne (by decide), closes.head_ne (by decide)⟩

/-- A term in front of a comparison with another one is not the bound of an aggregate. -/
theorem leadingGuard_comparison {input : List Char} {good : Term → Prop} (symbol : Relation)
    (reads : term.Reads input (symbol.symbol.toList ++ text) good) (starts : StartsTerm text) :
    ∃ middle isGuard, leadingGuard.Reads input middle isGuard ∧ '\x7b' ∉ middle.head? ∧
      '#' ∉ middle.head? :=
  ⟨text, _, reads_leadingGuard_relation symbol false false reads starts.solid
    (starts.head_ne (by decide)), starts.head_ne (by decide), starts.head_ne (by decide)⟩

theorem reads_atom_predicate (isAtom : content.isAtom = true) (lexical : content.isLexical = true)
    (closes : Closes text) :
    (atom literal).Reads (content.write (gap spaced ++ text)) (gap spaced ++ text) fun found =>
      found.erase = .predicate content.reread := by
  have readable := isReadable_of_isLexical content lexical
  have noHash : '#' ∉ (content.write (gap spaced ++ text)).head? :=
    (readable.1 _).head_ne (by decide)
  obtain ⟨_, _, leading, noBrace, noFunction⟩ := leadingGuard_delimiter
    (readable.reads_term (closes.endsTerm spaced 0)) closes
  have noComparison : comparison.Rejects (content.write (gap spaced ++ text)) :=
    .located (.after (readable.reads_term (closes.endsTerm spaced 0)) fun _ _ =>
      .after (closes.solid.reads_gap spaced) fun _ _ => .bind closes.rejects_relation)
  exact .expecting _ (.firstOf (.tail (rejects_boolean_head noHash)
    (.tail (.bind (rejects_aggregate leading noBrace))
      (.tail (.bind (rejects_bodyAggregate leading noFunction))
        (.tail noComparison
          (.head (reads_predicate isAtom lexical (closes.endsTerm spaced _))))))))

theorem reads_atom_comparison (lexicalLeft : left.isLexical = true)
    (lexicalRight : right.isLexical = true) (symbol : Relation) (ends : EndsTerm 0 rest) :
    (atom literal).Reads (left.write (symbol.symbol.toList ++ right.write rest)) rest fun found =>
      found.erase = .comparison left.reread symbol right.reread := by
  have readableLeft := isReadable_of_isLexical left lexicalLeft
  have readableRight := isReadable_of_isLexical right lexicalRight
  have starts := readableRight.1 rest
  have noEqual : '=' ∉ (right.write rest).head? := starts.head_ne (by decide)
  have noHash : '#' ∉ (left.write (symbol.symbol.toList ++ right.write rest)).head? :=
    (readableLeft.1 _).head_ne (by decide)
  have endsLeft := endsTerm_relation symbol (right.write rest)
  obtain ⟨_, _, leading, noBrace, noFunction⟩ := leadingGuard_comparison symbol
    (readableLeft.reads_term endsLeft) starts
  refine .expecting _ (.firstOf (.tail (rejects_boolean_head noHash)
    (.tail (.bind (rejects_aggregate leading noBrace))
      (.tail (.bind (rejects_bodyAggregate leading noFunction))
        (.head (.located ?_))))))
  refine .bind (readableLeft.reads_term endsLeft) fun foundLeft sameLeft => ?_
  refine .bind (solid_relation symbol _).reads_no_space fun _ _ =>
    .bind (reads_relation symbol noEqual) ?_
  rintro _ rfl
  refine .bind starts.solid.reads_no_space fun _ _ => ?_
  refine .bind (readableRight.reads_term ends) fun foundRight sameRight => .pure fun _ => ?_
  rw [← sameLeft, ← sameRight]
  rfl

end Simple

/-! Aggregates. -/

section Aggregates

variable {literal : Parser Literal} {text rest : List Char}

/-- Elements in braces are read one by one. -/
theorem reads_elements {ι α : Type} {item : Parser α} {write : ι → List Char → List Char}
    {good : ι → α → Prop} {elements : List ι}
    (reads : elements ≠ [] →
      ReadsAll item write [';', ' '] good elements (' ' :: '\x7d' :: rest))
    (solid : ∀ element ∈ elements, ∀ text, Solid (write element text))
    (rejects : item.Rejects ('\x7d' :: rest)) :
    (braced (separated (spacedToken ";") item)).Reads (writeElements write elements rest) rest
      (List.Forall₂ good elements) := by
  have closing : Solid ('\x7d' :: rest) := solid_cons (by decide) (by decide)
  cases elements with
  | nil =>
      refine reads_braced_empty ((Reads.separated_nil rejects).imp ?_)
      rintro _ rfl
      exact .nil
  | cons first others =>
      have ends : (do spacedToken ";"; item : Parser α).Rejects (' ' :: '\x7d' :: rest) := by
        refine .bind (@Solid.rejects_spacedToken _ ";" [' '] closing ?_ (by simp [isSpace]))
        rintro ⟨others, shape⟩
        cases shape
      have separates : ∀ element ∈ first :: others, ∀ text,
          (spacedToken ";").Reads ([';', ' '] ++ write element text) (write element text)
            fun _ => True := fun element member text =>
        (solid element member text).reads_delimiter rfl (by decide) (by decide)
      have solidAll : Solid (writeAll [';', ' '] write (first :: others) (' ' :: '\x7d' :: rest)) :=
        solid_writeAll (by simp) solid _
      exact solidAll.reads_braced
        (.separated (((reads (by simp)).row separates (by simp)).separated1 ends))

/-- The names of aggregate functions consist of letters, but for a plus at the end of one of them.
The letters are not the name of a directive. -/
theorem function_shape (function : AggregateFunction) : ∃ letters plus,
    function.symbol.toList = '#' :: (letters ++ plus) ∧ letters ≠ [] ∧
      (∀ letter ∈ letters, letter.isAlpha = true) ∧ (plus = [] ∨ plus = ['+']) ∧
      isReserved (String.ofList letters) = true := by
  cases function
  case count => exact ⟨"count".toList, [], rfl, by decide, by simp, .inl rfl, by decide⟩
  case sum => exact ⟨"sum".toList, [], rfl, by decide, by simp, .inl rfl, by decide⟩
  case sumPlus => exact ⟨"sum".toList, ['+'], rfl, by decide, by simp, .inr rfl, by decide⟩
  case min => exact ⟨"min".toList, [], rfl, by decide, by simp, .inl rfl, by decide⟩
  case max => exact ⟨"max".toList, [], rfl, by decide, by simp, .inl rfl, by decide⟩

theorem reads_aggregateFunction (function : AggregateFunction) (rest : List Char) :
    aggregateFunction.Reads (function.symbol.toList ++ ' ' :: rest) (' ' :: rest)
      (· = function) := by
  obtain ⟨letters, plus, shape, nonempty, areLetters, isPlus, _⟩ := function_shape function
  have name : (do
      char '#'
      let _ ← takeWhile1 Char.isAlpha .letters
      let _ ← optional (char '+') : Parser Unit).Reads (function.symbol.toList ++ ' ' :: rest)
      (' ' :: rest) fun _ => True := by
    rw [shape, List.cons_append, List.append_assoc]
    refine .bind (.char _ _) fun _ _ => .bind (.takeWhile1 _ nonempty areLetters ?_) fun _ _ => ?_
    · rcases isPlus with rfl | rfl
      · intro next isNext
        cases isNext
        decide
      · intro next isNext
        cases isNext
        decide
    · rcases isPlus with rfl | rfl
      · exact .bind (.optional_none (rejects_char (by simp))) fun _ _ => .pure trivial
      · exact .bind (.optional_some (.char _ _)) fun _ _ => .pure trivial
  refine .convert ((Reads.consumed name).imp ?_)
  rintro _ rfl
  refine ⟨function, ?_, rfl⟩
  rw [String.ofList_toList]
  cases function <;> rfl

variable {left right : Option Guard} {spaced : Bool}

theorem head_writeLeft {character : Char} (lexical : Guard.isLexical left = true)
    (noTerm : isTermStart character = false) (refused : character ∉ text.head?) :
    character ∉ (Guard.writeLeft left text).head? := by
  cases left with
  | none => exact refused
  | some guard =>
      rw [Guard.writeLeft_some]
      exact (startsTerm_write guard.term lexical _).head_ne noTerm

/-- An aggregate is read part by part, whatever its left bound is read from. -/
theorem reads_aggregate_parts {elements : List (Conditional Literal)} {start : List Char}
    {isLeft : Option Guard → Prop}
    (leading : leadingGuard.Reads start
      (writeElements Conditional.write elements (Guard.writeRight right (gap spaced ++ text)))
      isLeft)
    (readsElements : (braced (separated (spacedToken ";") (conditional literal))).Reads
      (writeElements Conditional.write elements (Guard.writeRight right (gap spaced ++ text)))
      (Guard.writeRight right (gap spaced ++ text))
      fun found => Conditional.eraseAll found = Conditional.eraseAll elements)
    (lexical : Guard.isLexical right = true) (closes : Closes text) :
    (aggregate literal).Reads start (gap spaced ++ text) fun found => ∃ left, isLeft left ∧
      found.erase = ⟨left.map Guard.erase, Conditional.eraseAll elements,
        right.map Guard.reread, none⟩ := by
  refine .located (.bind leading fun left found => .bind readsElements fun elements same => ?_)
  refine .bind (reads_trailingGuard lexical closes spaced) fun right isRight => .pure ?_
  intro origin
  refine ⟨left, found, ?_⟩
  rw [← same, ← isRight]
  rfl

theorem reads_aggregate {content : Aggregate Literal}
    (lexicalLeft : Guard.isLexical content.left = true)
    (lexicalRight : Guard.isLexical content.right = true)
    (readsElements : ∀ rest, (braced (separated (spacedToken ";") (conditional literal))).Reads
      (writeElements Conditional.write content.elements rest) rest
      fun found => Conditional.eraseAll found = Conditional.eraseAll content.elements)
    (closes : Closes text) :
    (aggregate literal).Reads ((Atom.aggregate content).write (gap spaced ++ text))
      (gap spaced ++ text) fun found =>
        found.erase = ⟨content.left.map Guard.reread, Conditional.eraseAll content.elements,
          content.right.map Guard.reread, none⟩ := by
  rw [Atom.write_aggregate]
  have solid : Solid (writeElements Conditional.write content.elements
      (Guard.writeRight content.right (gap spaced ++ text))) := solid_cons (by decide) (by decide)
  have leading := reads_leadingGuard lexicalLeft solid (by simp [writeElements, isTermStart])
  refine (reads_aggregate_parts leading (readsElements _) lexicalRight closes).imp ?_
  rintro found ⟨left, isLeft, same⟩
  rw [same, isLeft]

theorem reads_atom_aggregate {content : Aggregate Literal}
    (lexicalLeft : Guard.isLexical content.left = true)
    (lexicalRight : Guard.isLexical content.right = true)
    (readsElements : ∀ rest, (braced (separated (spacedToken ";") (conditional literal))).Reads
      (writeElements Conditional.write content.elements rest) rest
      fun found => Conditional.eraseAll found = Conditional.eraseAll content.elements)
    (closes : Closes text) :
    (atom literal).Reads ((Atom.aggregate content).write (gap spaced ++ text))
      (gap spaced ++ text) fun found =>
        found.erase = .aggregate ⟨content.left.map Guard.reread,
          Conditional.eraseAll content.elements, content.right.map Guard.reread, none⟩ := by
  have noHash : '#' ∉ ((Atom.aggregate content).write (gap spaced ++ text)).head? := by
    rw [Atom.write_aggregate]
    exact head_writeLeft lexicalLeft (by decide) (by simp [writeElements])
  refine .expecting _ (.firstOf (.tail (rejects_boolean_head noHash) (.head ?_)))
  refine .bind (reads_aggregate lexicalLeft lexicalRight readsElements closes) fun found same => ?_
  refine .pure ?_
  rw [Atom.erase, same]

theorem function_cons (function : AggregateFunction) :
    ∃ others, function.symbol.toList = '#' :: others := by
  cases function <;> exact ⟨_, rfl⟩

theorem solid_function (function : AggregateFunction) (rest : List Char) :
    Solid (function.symbol.toList ++ rest) := by
  obtain ⟨others, shape⟩ := function_cons function
  rw [shape]
  exact solid_cons (by decide) (by decide)

theorem startsFunction (function : AggregateFunction) (rest : List Char) :
    ∀ first ∈ (function.symbol.toList ++ rest).head?, isTermStart first = false := by
  intro first isFirst
  cases function <;> cases isFirst <;> decide

theorem reads_bodyAggregate {function : AggregateFunction} {elements : List (Element Literal)}
    (lexicalLeft : Guard.isLexical left = true) (lexicalRight : Guard.isLexical right = true)
    (readsElements : (braced (separated (spacedToken ";") (element literal))).Reads
      (writeElements Element.write elements (Guard.writeRight right (gap spaced ++ text)))
      (Guard.writeRight right (gap spaced ++ text))
      fun found => Element.eraseAll found = Element.eraseAll elements)
    (closes : Closes text) :
    (bodyAggregate literal).Reads (Guard.writeLeft left (function.symbol.toList ++
        ' ' :: writeElements Element.write elements (Guard.writeRight right (gap spaced ++ text))))
      (gap spaced ++ text) fun found => found.erase = ⟨function, left.map Guard.reread,
        Element.eraseAll elements, right.map Guard.reread, none⟩ := by
  have opening : Solid (writeElements Element.write elements
      (Guard.writeRight right (gap spaced ++ text))) := solid_cons (by decide) (by decide)
  refine .located (.bind (reads_leadingGuard lexicalLeft (solid_function _ _)
    (startsFunction function _))
    fun left isLeft => ?_)
  refine .bind (reads_aggregateFunction function _) ?_
  rintro _ rfl
  refine .bind opening.reads_blank fun _ _ => .bind readsElements fun elements same => ?_
  refine .bind (reads_trailingGuard lexicalRight closes spaced) fun right isRight => .pure ?_
  intro origin
  rw [← same, ← isLeft, ← isRight]
  rfl

theorem rejects_boolean_function (function : AggregateFunction)
    (lexical : Guard.isLexical left = true) (rest : List Char) :
    boolean.Rejects (Guard.writeLeft left (function.symbol.toList ++ rest)) := by
  cases left with
  | none =>
      apply rejects_boolean
      · rintro ⟨others, shape⟩
        cases function <;> cases shape
      · rintro ⟨others, shape⟩
        cases function <;> cases shape
  | some guard =>
      rw [Guard.writeLeft_some]
      exact rejects_boolean_head ((startsTerm_write guard.term lexical _).head_ne (by decide))

theorem rejects_aggregate_function (function : AggregateFunction)
    (lexical : Guard.isLexical left = true) (rest : List Char) :
    (aggregate literal).Rejects (Guard.writeLeft left (function.symbol.toList ++ rest)) := by
  refine rejects_aggregate (reads_leadingGuard lexical (solid_function _ _)
    (startsFunction function _)) ?_
  intro isFirst
  cases function <;> cases isFirst

theorem reads_atom_bodyAggregate {content : BodyAggregate Literal}
    (lexicalLeft : Guard.isLexical content.left = true)
    (lexicalRight : Guard.isLexical content.right = true)
    (readsElements : ∀ rest, (braced (separated (spacedToken ";") (element literal))).Reads
      (writeElements Element.write content.elements rest) rest
      fun found => Element.eraseAll found = Element.eraseAll content.elements)
    (closes : Closes text) :
    (atom literal).Reads ((Atom.bodyAggregate content).write (gap spaced ++ text))
      (gap spaced ++ text) fun found =>
        found.erase = .bodyAggregate ⟨content.function, content.left.map Guard.reread,
          Element.eraseAll content.elements, content.right.map Guard.reread, none⟩ := by
  rw [Atom.write_bodyAggregate]
  refine .expecting _ (.firstOf (.tail (rejects_boolean_function _ lexicalLeft _)
    (.tail (.bind (rejects_aggregate_function _ lexicalLeft _)) (.head ?_))))
  refine .bind (reads_bodyAggregate lexicalLeft lexicalRight (readsElements _) closes) ?_
  intro found same
  refine .pure ?_
  rw [Atom.erase, same]

end Aggregates

end SoftRules.Grammar
