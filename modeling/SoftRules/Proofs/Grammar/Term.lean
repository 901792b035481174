import SoftRules.Proofs.Grammar.TermText

/-!
How terms are read back from their texts.

A term is read operand by operand: the leftmost operand first, then one operator with its right
operand after the other, each of them by a round of its own. `Opens` says this of a text, whatever
follows it; the induction on terms shows it of the text of each term.
-/

set_option autoImplicit false

namespace SoftRules.Grammar

open SoftRules.Parser

/-! Texts that do not start a term. -/

section Rejection

variable {text : List Char}

theorem isTermStart_classes {character : Char} (other : isTermStart character = false) :
    character.isDigit = false ∧ character.isLower = false ∧ isVariableStart character = false ∧
      character ≠ '"' ∧ character ≠ '(' ∧ character ≠ '-' := by
  simp only [isTermStart, Char.isAlphanum, isAlpha_eq, Bool.or_eq_false_iff,
    beq_eq_false_iff_ne] at other
  obtain ⟨⟨⟨⟨⟨⟨noUpper, noLower⟩, noDigit⟩, noUnderscore⟩, noQuote⟩, noBracket⟩, noMinus⟩ := other
  exact ⟨noDigit, noLower, by simp [isVariableStart, noUpper, noUnderscore], noQuote, noBracket,
    noMinus⟩

theorem rejects_arguments (term : Parser Term) (noBracket : '(' ∉ text.head?) :
    (arguments term).Rejects text :=
  .bind (rejects_char noBracket)

theorem rejects_primary (term : Parser Term)
    (noVariable : ∀ first ∈ text.head?, isVariableStart first = false)
    (noLower : ∀ first ∈ text.head?, first.isLower = false) (noQuote : '"' ∉ text.head?)
    (noBracket : '(' ∉ text.head?) : (primary term).Rejects text := by
  have rejectsVariable : variableName.Rejects text :=
    .located (.expecting _ (.bind (rejects_name noVariable)))
  exact .located (rejects_firstOf (.cons (.bind rejectsVariable)
    (.cons (.bind (rejects_quotedText noQuote)) (.cons (.located (.bind (rejects_name noLower)))
      (.cons (.bind (rejects_arguments term noBracket)) .nil)))))

theorem rejects_operand (family : Nat → Parser Term)
    (refused : ∀ first ∈ text.head?, isTermStart first = false) :
    (operand family).Rejects text := by
  have classes (first : Char) (isFirst : first ∈ text.head?) :=
    isTermStart_classes (refused first isFirst)
  have noMinus : '-' ∉ text.head? := fun isMinus => (classes '-' isMinus).2.2.2.2.2 rfl
  have noQuote : '"' ∉ text.head? := fun isQuote => (classes '"' isQuote).2.2.2.1 rfl
  have noBracket : '(' ∉ text.head? := fun isBracket => (classes '(' isBracket).2.2.2.2.1 rfl
  have noInteger : integer.Rejects text :=
    rejects_integer noMinus fun first isFirst => (classes first isFirst).1
  have noPrimary (term : Parser Term) : (primary term).Rejects text :=
    rejects_primary term (fun first isFirst => (classes first isFirst).2.2.1)
      (fun first isFirst => (classes first isFirst).2.1) noQuote noBracket
  exact rejects_firstOf (.cons (.located (.bind noInteger))
    (.cons (.located (.bind (rejects_char noMinus))) (.cons (noPrimary _) .nil)))

theorem rejects_operation (strength : Nat)
    (refused : ∀ first ∈ text.head?, isTermStart first = false) :
    (operation strength).Rejects text := by
  rw [operation_eq]
  exact .after .offset fun _ _ => .bind (rejects_operand operation refused)

theorem rejects_term (refused : ∀ first ∈ text.head?, isTermStart first = false) :
    term.Rejects text :=
  .expecting _ (rejects_operation 0 refused)

end Rejection

/-! Reading an operation operand by operand. -/

/-- What a round of an operation adds to the operation so far. -/
def extend (start : Nat) (left : Term) (item : Operator × Term × Nat) : Term :=
  .operation item.1 [left, item.2.1] (some ⟨start, item.2.2⟩)

/-- The text starts with an operand, and rounds behind it lead to `rest`. They do so in each
operation that reads operators of the strength `bound`. -/
def Climbs (bound : Nat) (text rest : List Char)
    (good : Term → List (Operator × Term × Nat) → Prop) : Prop :=
  ∃ middle isFirst, (operand operation).Reads text middle isFirst ∧
    ∀ strength ≤ bound, Passes (continuation operation strength) middle rest fun items =>
      ∀ first, isFirst first → good first items

variable {bound : Nat} {term : Term} {text rest : List Char}
  {good better : Term → List (Operator × Term × Nat) → Prop}

theorem Climbs.mono {other : Nat} (climbs : Climbs bound text rest good) (less : other ≤ bound) :
    Climbs other text rest good := by
  obtain ⟨middle, isFirst, reads, passes⟩ := climbs
  exact ⟨middle, isFirst, reads, fun strength binds => passes strength (Nat.le_trans binds less)⟩

theorem Climbs.imp (climbs : Climbs bound text rest good)
    (implies : ∀ first items, good first items → better first items) :
    Climbs bound text rest better := by
  obtain ⟨middle, isFirst, reads, passes⟩ := climbs
  refine ⟨middle, isFirst, reads, fun strength binds => (passes strength binds).imp ?_⟩
  intro items areGood first found
  exact implies first items (areGood first found)

theorem climbs_operand {isFirst : Term → Prop} (reads : (operand operation).Reads text rest isFirst)
    (isGood : ∀ first, isFirst first → good first []) : Climbs bound text rest good :=
  ⟨rest, isFirst, reads, fun _ _ => .refl isGood⟩

/-- One more operator with its right operand. -/
theorem Climbs.binary {operator : Operator} {behind input : List Char} {isRight : Term → Prop}
    (climbs : Climbs operator.strength text behind good)
    (reads : infixOperator.Reads behind input (· = operator)) (solid : Solid input)
    (shorter : rest.length < behind.length)
    (readsRight : (operation operator.rightStrength).Reads input rest isRight)
    (complete : ∀ first items item, good first items → item.1 = operator → isRight item.2.1 →
      better first (items ++ [item])) :
    Climbs operator.strength text rest better := by
  obtain ⟨middle, isFirst, operandReads, passes⟩ := climbs
  refine ⟨middle, isFirst, operandReads, ?_⟩
  intro strength weaker
  have round := Passes.one (reads_continuation reads solid weaker readsRight) shorter
  refine ((passes strength weaker).trans round).imp ?_
  rintro items ⟨before, _, rfl, areGood, ⟨item, rfl, isOperator, found⟩⟩ first isFound
  exact complete first before item (areGood first isFound) isOperator found

/-- An operation ends where no operator follows that binds tight enough. -/
theorem Climbs.reads {strength : Nat} (climbs : Climbs strength text rest good)
    (ends : Ends (continuation operation strength) rest) :
    (operation strength).Reads text rest fun found =>
      ∃ start first items, good first items ∧ found = items.foldl (extend start) first := by
  obtain ⟨middle, isFirst, operandReads, passes⟩ := climbs
  rw [operation_eq]
  refine .bind .offset fun start _ => .bind operandReads fun first found => ?_
  refine .bind ((passes strength (Nat.le_refl _)).reads ends) fun items areGood => .pure ?_
  exact ⟨start, first, items, areGood first found, rfl⟩

/-- The rounds complete the term. -/
def Opens (bound : Nat) (term : Term) (text rest : List Char) : Prop :=
  Climbs bound text rest fun first items =>
    ∀ start, (items.foldl (extend start) first).erase = term.reread

theorem opens_operand
    (reads : (operand operation).Reads text rest fun found => found.erase = term.reread) :
    Opens bound term text rest :=
  climbs_operand reads fun _ same _ => same

theorem Opens.reads {strength : Nat} (opens : Opens strength term text rest)
    (ends : Ends (continuation operation strength) rest) :
    (operation strength).Reads text rest fun found => found.erase = term.reread := by
  refine (Climbs.reads opens ends).imp ?_
  rintro found ⟨start, first, items, complete, rfl⟩
  exact complete start

theorem opens_binary {operator : Operator} {left right : Term} {origin : Origin}
    {behind input : List Char} (opensLeft : Opens operator.strength left text behind)
    (reads : infixOperator.Reads behind input (· = operator)) (solid : Solid input)
    (shorter : rest.length < behind.length)
    (readsRight : (operation operator.rightStrength).Reads input rest fun found =>
      found.erase = right.reread) :
    Opens operator.strength (.operation operator [left, right] origin) text rest := by
  refine Climbs.binary opensLeft reads solid shorter readsRight ?_
  intro first items item complete isOperator isRight start
  rw [List.foldl_append]
  simp only [List.foldl_cons, List.foldl_nil, extend, Term.erase, Term.eraseAll, isOperator,
    complete start, isRight, Term.reread, Term.signedNumber?_pair, Term.rereadAll]

/-- The term is read from its text in front of each text that ends it. -/
def IsReadable (term : Term) : Prop :=
  (∀ rest, StartsTerm (term.write rest)) ∧
    ∀ rest, EndsTerm term.tailStrength rest → Opens term.strength term (term.write rest) rest

theorem IsReadable.reads (readable : IsReadable term) {strength : Nat}
    (binds : strength ≤ term.strength) (ends : EndsTerm strength rest) :
    (operation strength).Reads (term.write rest) rest fun found => found.erase = term.reread := by
  have less := Nat.le_trans binds term.strength_le_tailStrength
  exact Opens.reads ((readable.2 rest (ends.mono less)).mono binds) ends.operator

theorem IsReadable.reads_term (readable : IsReadable term) (ends : EndsTerm 0 rest) :
    Grammar.term.Reads (term.write rest) rest fun found => found.erase = term.reread :=
  .expecting _ (readable.reads (Nat.zero_le _) ends)

/-! Arguments, in parentheses and with commas between them. -/

theorem solid_bracket (rest : List Char) : Solid (')' :: rest) :=
  solid_cons (by decide) (by decide)

theorem rejects_term_bracket (rest : List Char) : Grammar.term.Rejects (')' :: rest) := by
  refine rejects_term ?_
  intro first isFirst
  cases isFirst
  decide

/-- Commas between terms are read with nothing around them. -/
theorem reads_comma {text : List Char} (solid : Solid text) :
    (spacedToken ",").Reads (',' :: text) text fun _ => True :=
  @Solid.reads_spacedToken text "," [] [] solid (solid_cons (by decide) (by decide)) (by decide)
    (by simp) (by simp)

theorem rejects_comma {text : List Char} (solid : Solid text) (refused : ',' ∉ text.head?) :
    (spacedToken ",").Rejects text := by
  refine @Solid.rejects_spacedToken text "," [] solid ?_ (by simp)
  rintro ⟨others, rfl⟩
  exact refused rfl

def AllRead (terms : List Term) : Prop := ∀ term ∈ terms, IsReadable term

theorem AllRead.row {terms : List Term} (reads : AllRead terms) (nonempty : terms ≠ [])
    {rest : List Char} (ends : EndsTerm 0 rest) :
    ReadsRow Grammar.term (spacedToken ",") (fun term found => found.erase = term.reread) terms
      (writeAll [','] Term.write terms rest) rest := by
  have items : ReadsAll Grammar.term Term.write [',']
      (fun term found => found.erase = term.reread) terms rest :=
    readsAll_of_forall nonempty (fun term member _ => (reads term member).reads_term)
      (fun text => endsTerm_break (by decide) 0 text) ends
  refine items.row ?_ (by simp)
  intro term member text
  exact reads_comma ((reads term member).1 text).solid

theorem AllRead.separated1 {terms : List Term} (reads : AllRead terms) (nonempty : terms ≠ [])
    {rest : List Char} (ends : EndsTerm 0 rest)
    (last : (do spacedToken ","; Grammar.term : Parser Term).Rejects rest) :
    (separated1 (spacedToken ",") Grammar.term).Reads (writeAll [','] Term.write terms rest) rest
      fun found => found.map Term.erase = terms.map Term.reread :=
  ((reads.row nonempty ends).separated1 last).imp fun _ same => map_eq_of_forall₂ same

/-- The comma behind a single term and the closing bracket. -/
theorem reads_argumentsEnd (found : List Term) (comma : Bool) (rest : List Char) :
    (do
      let comma ← optional do space; char ','
      space
      char ')'
      return (found, comma.isSome) : Parser (List Term × Bool)).Reads
      ((if comma then [','] else []) ++ ')' :: rest) rest (· = (found, comma)) := by
  have closing : (char ')').Reads (')' :: rest) rest fun _ => True := .char _ _
  cases comma with
  | true =>
      have solid : Solid (',' :: ')' :: rest) := solid_cons (by decide) (by decide)
      have reads : (do space; char ',' : Parser Unit).Reads (',' :: ')' :: rest) (')' :: rest)
          fun _ => True := .bind solid.reads_no_space fun _ _ => .char _ _
      refine .bind (.optional_some reads) ?_
      rintro _ ⟨_, rfl, _⟩
      exact .bind (solid_bracket rest).reads_no_space fun _ _ => .bind closing fun _ _ => .pure rfl
  | false =>
      have rejects : (do space; char ',' : Parser Unit).Rejects (')' :: rest) :=
        .after (solid_bracket rest).reads_no_space fun _ _ => rejects_char (by simp)
      refine .bind (.optional_none rejects) ?_
      rintro _ rfl
      exact .bind (solid_bracket rest).reads_no_space fun _ _ => .bind closing fun _ _ => .pure rfl

theorem AllRead.arguments {terms : List Term} (reads : AllRead terms) (comma : Bool)
    (nonempty : comma = true → terms ≠ []) (rest : List Char) :
    (arguments Grammar.term).Reads
      ('(' :: writeAll [','] Term.write terms ((if comma then [','] else []) ++ ')' :: rest)) rest
      fun found => found.1.map Term.erase = terms.map Term.reread ∧ found.2 = comma := by
  refine .bind (.char _ _) fun _ _ => ?_
  by_cases empty : terms = []
  · have noComma : comma = false := by
      cases comma with
      | false => rfl
      | true => exact absurd empty (nonempty rfl)
    subst empty noComma
    refine .bind (solid_bracket rest).reads_no_space fun _ _ => ?_
    refine .bind (.separated_nil (rejects_term_bracket rest)) ?_
    rintro _ rfl
    refine (reads_argumentsEnd [] false rest).imp ?_
    rintro _ rfl
    exact ⟨rfl, rfl⟩
  · have solid : Solid (writeAll [','] Term.write terms
        ((if comma then [','] else []) ++ ')' :: rest)) :=
      solid_writeAll empty (fun term member text => ((reads term member).1 text).solid) _
    have ends : EndsTerm 0 ((if comma then [','] else []) ++ ')' :: rest) := by
      cases comma <;> exact endsTerm_break (by decide) 0 _
    have last : (do spacedToken ","; Grammar.term : Parser Term).Rejects
        ((if comma then [','] else []) ++ ')' :: rest) := by
      cases comma with
      | true => exact .after (reads_comma (solid_bracket rest)) fun _ _ => rejects_term_bracket rest
      | false => exact .bind (rejects_comma (solid_bracket rest) (by simp))
    refine .bind solid.reads_no_space fun _ _ =>
      .bind (.separated (reads.separated1 empty ends last)) fun found isFound => ?_
    refine (reads_argumentsEnd found comma rest).imp ?_
    rintro _ rfl
    exact ⟨isFound, rfl⟩

/-! Operands. -/

section Operands

variable {rest : List Char}

/-- A text that starts neither an integer nor a negation is read as a primary term. -/
theorem reads_operand_primary {text : List Char} {good : Term → Prop} (noMinus : '-' ∉ text.head?)
    (noDigit : ∀ first ∈ text.head?, first.isDigit = false)
    (reads : (primary Grammar.term).Reads text rest good) :
    (operand operation).Reads text rest good :=
  .firstOf (.tail (.located (.bind (rejects_integer noMinus noDigit)))
    (.tail (.located (.bind (rejects_char noMinus))) (.head reads)))

theorem reads_variable {x : Variable} (lexical : isName isVariableStart x.name = true)
    (ends : EndsName rest) :
    (operand operation).Reads (x.name.toList ++ rest) rest fun found =>
      found.erase = (Term.var x).reread := by
  obtain ⟨first, others, shape, isStart, _⟩ := isName_cons lexical
  have start {character : Char} (isFirst : character ∈ (x.name.toList ++ rest).head?) :
      isVariableStart character = true := by
    rw [shape] at isFirst
    cases isFirst
    exact isStart
  refine reads_operand_primary ?_ ?_ ?_
  · intro isMinus
    cases start isMinus
  · intro character isFirst
    exact isVariableStart_noDigit (start isFirst)
  · refine .located (.firstOf (.head (.bind (reads_variableName lexical ends) ?_)))
    intro found same
    refine .pure fun origin => ?_
    simp only [Located.relocate, Term.relocate, Term.erase, Term.reread, ← same]
    rfl

theorem reads_number {value : Int} (fits : Number.fitsInt64 value = true) (ends : EndsName rest) :
    (operand operation).Reads ((toString value).toList ++ rest) rest fun found =>
      found.erase = .number value := by
  refine .firstOf (.head (.located (.bind (reads_integer fits ends) ?_)))
  rintro _ rfl
  exact .pure fun _ => rfl

theorem reads_string (value : String) (origin : Origin) :
    (operand operation).Reads ((Term.symbol (.text value) origin).write rest) rest fun found =>
      found.erase = .text value := by
  have head {character : Char}
      (isFirst : character ∈ ((Term.symbol (.text value) origin).write rest).head?) :
      character = '"' := by
    rw [Term.write_text] at isFirst
    cases isFirst
    rfl
  refine reads_operand_primary ?_ ?_ ?_
  · intro isMinus
    cases head isMinus
  · intro character isFirst
    rw [head isFirst]
    decide
  · have noVariable : variableName.Rejects ((Term.symbol (.text value) origin).write rest) := by
      refine .located (.expecting _ (.bind (rejects_name ?_)))
      intro character isFirst
      rw [head isFirst]
      decide
    have reads := reads_quotedText value rest
    rw [← Term.write_symbol (.text value) origin] at reads
    refine .located (.firstOf (.tail (.bind noVariable) (.head (.bind reads ?_))))
    rintro _ rfl
    exact .pure fun _ => rfl

/-- A name with or without arguments behind it. -/
theorem reads_functionTerm {name : String} (lexical : isName Char.isLower name = true)
    {arguments : List Term} (reads : AllRead arguments) (origin : Origin)
    (endsName : EndsName rest) (noBracket : '(' ∉ rest.head?) :
    (functionTerm Grammar.term).Reads ((Term.function name arguments origin).write rest) rest
      fun found => found.erase = (Term.function name arguments origin).reread := by
  have named : name ≠ "" := by
    rintro rfl
    cases lexical
  refine .located ?_
  by_cases nonempty : arguments = []
  · subst nonempty
    rw [Term.write_constant named]
    refine .bind (reads_name lexical endsName) ?_
    rintro _ rfl
    refine .bind (.optional_none (rejects_arguments _ noBracket)) ?_
    rintro _ rfl
    exact .pure fun _ => rfl
  · rw [Term.write_function named nonempty]
    have endsName : EndsName ('(' :: writeAll [','] Term.write arguments (')' :: rest)) := by
      intro next isNext
      cases isNext
      decide
    refine .bind (reads_name lexical endsName) ?_
    rintro _ rfl
    refine .bind (.optional_some (reads.arguments false (by simp) rest)) ?_
    rintro _ ⟨⟨found, comma⟩, rfl, same, _⟩
    refine .pure fun _ => ?_
    simp only [Located.relocate, Term.relocate, Option.map_some, Option.getD_some, Term.erase,
      Term.reread, Term.eraseAll_eq, Term.rereadAll_eq]
    rw [same]

theorem write_function_cons {name : String} (lexical : isName Char.isLower name = true)
    (arguments : List Term) (origin : Origin) (rest : List Char) :
    ∃ first others, (Term.function name arguments origin).write rest = first :: others ∧
      first.isLower = true := by
  have named : name ≠ "" := by
    rintro rfl
    cases lexical
  obtain ⟨first, others, shape, isLower, _⟩ := isName_cons lexical
  by_cases nonempty : arguments = []
  · rw [nonempty, Term.write_constant named, shape]
    exact ⟨first, _, rfl, isLower⟩
  · rw [Term.write_function named nonempty, shape]
    exact ⟨first, _, rfl, isLower⟩

theorem reads_function {name : String} (lexical : isName Char.isLower name = true)
    {arguments : List Term} (reads : AllRead arguments) (origin : Origin)
    (endsName : EndsName rest) (noBracket : '(' ∉ rest.head?) :
    (operand operation).Reads ((Term.function name arguments origin).write rest) rest
      fun found => found.erase = (Term.function name arguments origin).reread := by
  obtain ⟨first, others, shape, isLower⟩ := write_function_cons lexical arguments origin rest
  have head {character : Char}
      (isFirst : character ∈ ((Term.function name arguments origin).write rest).head?) :
      character.isLower = true := by
    rw [shape] at isFirst
    cases isFirst
    exact isLower
  refine reads_operand_primary ?_ ?_ ?_
  · intro isMinus
    cases head isMinus
  · intro character isFirst
    exact (isLower_classes (head isFirst)).1
  · refine .located (.firstOf (.tail ?_ (.tail ?_ (.head ?_))))
    · refine .bind (.located (.expecting _ (.bind (rejects_name ?_))))
      intro character isFirst
      exact (isLower_classes (head isFirst)).2
    · refine .bind (rejects_quotedText ?_)
      intro isQuote
      cases head isQuote
    · refine (reads_functionTerm lexical reads origin endsName noBracket).imp ?_
      intro found same origin
      rw [← same]
      cases found <;> rfl

/-- A bracket starts a tuple. -/
theorem reads_operand_tuple {text : List Char} {good : Term → Prop}
    (reads : (tuple Grammar.term).Reads ('(' :: text) rest fun found =>
      ∀ origin, good (found.relocate origin)) :
    (operand operation).Reads ('(' :: text) rest good := by
  refine reads_operand_primary (by simp) ?_ ?_
  · intro character isFirst
    cases isFirst
    decide
  · refine .located (.firstOf (.tail ?_ (.tail ?_ (.tail ?_ (.head reads)))))
    · refine .bind (.located (.expecting _ (.bind (rejects_name ?_))))
      intro character isFirst
      cases isFirst
      decide
    · exact .bind (rejects_quotedText (by simp))
    · refine .located (.bind (rejects_name ?_))
      intro character isFirst
      cases isFirst
      decide

theorem reads_tuple {arguments : List Term} (reads : AllRead arguments) (origin : Origin) :
    (operand operation).Reads ((Term.function "" arguments origin).write rest) rest fun found =>
      found.erase = (Term.function "" arguments origin).reread := by
  have nonempty : (arguments.length == 1) = true → arguments ≠ [] := by
    rintro single rfl
    cases single
  rw [Term.write_tuple]
  refine reads_operand_tuple (.bind (reads.arguments (arguments.length == 1) nonempty rest) ?_)
  rintro ⟨found, comma⟩ ⟨same, rfl⟩
  have length : found.length = arguments.length := by
    have lengths := congrArg List.length same
    rwa [List.length_map, List.length_map] at lengths
  have isTuple (origin : Origin) : ((Term.tuple found).relocate origin).erase =
      (Term.function "" arguments origin).reread := by
    simp only [Term.tuple, Term.relocate, Term.erase, Term.reread, Term.eraseAll_eq,
      Term.rereadAll_eq]
    rw [same]
  rw [← length]
  -- A single term stands in front of a comma, so its parentheses do not only group.
  rcases found with _ | ⟨first, _ | ⟨second, others⟩⟩
  · exact .pure isTuple
  · exact .pure isTuple
  · exact .pure isTuple

/-- Parentheses around a term only group. -/
theorem reads_enclosed {term : Term} (readable : IsReadable term) :
    (operand operation).Reads ('(' :: term.write (')' :: rest)) rest fun found =>
      found.erase = term.reread := by
  have reads : AllRead [term] := by simpa [AllRead] using readable
  refine reads_operand_tuple (.bind (reads.arguments false (by simp) rest) ?_)
  rintro ⟨found, comma⟩ ⟨same, rfl⟩
  obtain ⟨single, rfl⟩ : ∃ single, found = [single] := by
    rw [← List.length_eq_one_iff]
    have lengths := congrArg List.length same
    rwa [List.length_map, List.length_map] at lengths
  refine .pure fun origin => ?_
  have isTerm : single.erase = term.reread := by simpa using same
  rw [← isTerm]
  cases single <;> rfl

/-- The negation of a number that is not negative is read as a negative number. -/
theorem reads_signed {value : Int} (fits : Number.fitsInt64 value = true) (natural : 0 ≤ value)
    (ends : EndsName rest) :
    (operand operation).Reads ('-' :: ((toString value).toList ++ rest)) rest fun found =>
      found.erase = .number (-value) := by
  have bound : value ≤ Number.maxInt64 := by
    simp only [Number.fitsInt64, Bool.and_eq_true, decide_eq_true_eq] at fits
    exact fits.2
  by_cases zero : value = 0
  · subst zero
    -- The only number whose text does not show the sign.
    have reads : integer.Reads ('-' :: ((toString (0 : Int)).toList ++ rest)) rest (· = 0) := by
      refine .convert (.bind (.optional_some (.char '-' _)) ?_)
      rintro _ ⟨_, rfl, _⟩
      refine .bind (reads_digits 0 ends) ?_
      rintro _ rfl
      exact .pure ⟨0, rfl, rfl⟩
    refine .firstOf (.head (.located (.bind reads ?_)))
    rintro _ rfl
    exact .pure fun _ => rfl
  · have shape : '-' :: ((toString value).toList ++ rest) =
        (toString (-value)).toList ++ rest := by
      rw [toList_toString, toList_toString, if_neg (by omega), if_pos (by omega),
        Int.natAbs_neg]
      rfl
    rw [shape]
    refine reads_number ?_ ends
    have limits : Number.minInt64 = -9223372036854775808 ∧
        Number.maxInt64 = 9223372036854775807 := ⟨rfl, rfl⟩
    simp only [Number.fitsInt64, Bool.and_eq_true, decide_eq_true_eq]
    omega

theorem reads_negation {text : List Char} {good : Term → Prop} (starts : StartsTerm text)
    (noDigit : ∀ first ∈ text.head?, first.isDigit = false)
    (reads : (operation operandStrength).Reads text rest good) :
    (operand operation).Reads ('-' :: text) rest fun found =>
      ∃ operand, good operand ∧ found.erase = .operation .negation [operand.erase] := by
  refine .firstOf (.tail (.located (.bind (rejects_integer_minus noDigit))) (.head (.located ?_)))
  refine .bind (.char _ _) fun _ _ => .bind starts.solid.reads_no_space fun _ _ => .bind reads ?_
  intro operand isGood
  exact .pure fun _ => ⟨operand, isGood, rfl⟩

end Operands

/-! Operations, and with them all terms. -/

theorem IsReadable.opens_left {operator : Operator} (isBinary : operator.isUnary = false)
    (readable : IsReadable term) {input : List Char} (starts : StartsTerm input) :
    Opens operator.strength term
      (term.writeOperand (term.bindsWeakerThan operator false) (operator.symbol.toList ++ input))
      (operator.symbol.toList ++ input) := by
  cases enclosed : term.bindsWeakerThan operator false with
  | true =>
      rw [Term.writeOperand_true]
      exact opens_operand (reads_enclosed readable)
  | false =>
      obtain ⟨binds, tighter⟩ := Term.strength_of_left isBinary enclosed
      exact (readable.2 _ (endsTerm_operator isBinary tighter starts)).mono binds

theorem IsReadable.reads_operand (readable : IsReadable term) {needed : Bool} {strength : Nat}
    (binds : needed = false → strength ≤ term.strength) (ends : EndsTerm strength rest) :
    (operation strength).Reads (term.writeOperand needed rest) rest fun found =>
      found.erase = term.reread := by
  cases needed with
  | true =>
      rw [Term.writeOperand_true]
      exact (opens_operand (reads_enclosed readable)).reads ends.operator
  | false => exact readable.reads (binds rfl) ends

/-- An operator is read, and its right operand behind it. -/
structure ReadsRight (operator : Operator) (right : Term) (input rest : List Char) : Prop where
  starts : StartsTerm input
  symbol : infixOperator.Reads (operator.symbol.toList ++ input) input (· = operator)
  shorter : rest.length < (operator.symbol.toList ++ input).length
  operand : (operation operator.rightStrength).Reads input rest fun found =>
    found.erase = right.reread

theorem IsReadable.readsRight {operator : Operator} (isBinary : operator.isUnary = false)
    (readable : IsReadable term) (ends : EndsTerm operator.rightStrength rest) :
    ReadsRight operator term (term.writeOperand (term.bindsWeakerThan operator true) rest) rest := by
  have starts := @startsTerm_operand (term.bindsWeakerThan operator true) term rest readable.1
  have behind : Operator.Behind operator
      (term.writeOperand (term.bindsWeakerThan operator true) rest) :=
    fun _ => starts.head_ne (by decide)
  refine ⟨starts, reads_infixOperator isBinary behind [] (by simp), ?_,
    readable.reads_operand (Term.strength_of_right isBinary) ends⟩
  have spelled : 0 < operator.symbol.toList.length := by cases operator <;> decide
  simp only [Term.writeOperand, List.length_append]
  omega

theorem isReadable_binary {operator : Operator} (isBinary : operator.isUnary = false)
    {left right : Term} (readableLeft : IsReadable left) (readableRight : IsReadable right)
    (origin : Origin) : IsReadable (.operation operator [left, right] origin) := by
  refine ⟨fun rest => ?_, fun rest ends => ?_⟩
  · rw [Term.write_binary]
    exact startsTerm_operand _ readableLeft.1
  · rw [Term.write_binary]
    rw [Term.tailStrength_binary isBinary] at ends
    have readsRight := readableRight.readsRight isBinary ends
    exact opens_binary (readableLeft.opens_left isBinary readsRight.starts) readsRight.symbol
      readsRight.starts.solid readsRight.shorter readsRight.operand

/-- Only numbers and operations may start with a digit or a minus. -/
theorem write_primary_cons {term : Term} (lexical : term.isLexical = true)
    (noOperation : term.operator? = none)
    (noNumber : ∀ value origin, term ≠ .symbol (.number value) origin) (rest : List Char) :
    ∃ first others, term.write rest = first :: others ∧ first.isDigit = false ∧ first ≠ '-' := by
  rcases term with x | ⟨value | value, origin⟩ | ⟨name, arguments, origin⟩ |
    ⟨operator, operands, origin⟩
  · rw [Term.isLexical] at lexical
    obtain ⟨first, others, shape, isStart, _⟩ := isName_cons lexical
    refine ⟨first, others ++ rest, ?_, isVariableStart_noDigit isStart, ?_⟩
    · rw [Term.write_var, shape]
      rfl
    · rintro rfl
      cases isStart
  · exact absurd rfl (noNumber value origin)
  · rw [Term.write_text]
    exact ⟨'"', _, rfl, by decide, by decide⟩
  · simp only [Term.isLexical, Bool.and_eq_true, Bool.or_eq_true, beq_iff_eq] at lexical
    rcases lexical.1 with rfl | valid
    · rw [Term.write_tuple]
      exact ⟨'(', _, rfl, by decide, by decide⟩
    · obtain ⟨first, others, shape, isLower⟩ := write_function_cons valid arguments origin rest
      refine ⟨first, others, shape, (isLower_classes isLower).1, ?_⟩
      rintro rfl
      cases isLower
  · cases noOperation

/-- The text of an operand of a negation starts with a digit only if it is that of a number. -/
theorem writeOperand_cons {operand : Term} (lexical : operand.isLexical = true)
    (unsigned : Term.signedNumber? .negation [operand] = none) (rest : List Char) :
    ∃ first others, operand.writeOperand operand.bindsWeakerThanUnary rest = first :: others ∧
      first.isDigit = false := by
  cases isOperator : operand.operator? with
  | none =>
      have bare : operand.bindsWeakerThanUnary = false := by
        rw [Term.bindsWeakerThanUnary, isOperator]
      rw [bare, Term.writeOperand_false]
      by_cases isNumber : ∃ value origin, operand = .symbol (.number value) origin
      · obtain ⟨value, origin, rfl⟩ := isNumber
        have negative : value < 0 := by
          simpa [Term.signedNumber?] using unsigned
        rw [Term.write_symbol, Symbol.render, toList_toString, if_pos negative]
        exact ⟨'-', _, rfl, rfl⟩
      · obtain ⟨first, others, shape, noDigit, _⟩ := write_primary_cons lexical isOperator
          (fun value origin isSymbol => isNumber ⟨value, origin, isSymbol⟩) rest
        exact ⟨first, others, shape, noDigit⟩
  | some operator =>
      cases isUnary : operator.isUnary with
      | true =>
          have bare : operand.bindsWeakerThanUnary = false := by
            simp [Term.bindsWeakerThanUnary, isOperator, isUnary]
          rw [bare, Term.writeOperand_false]
          obtain ⟨inner, origin, rfl⟩ := Term.eq_negation lexical (isOperator.trans
            (congrArg some (Operator.isUnary_iff.mp isUnary)))
          rw [Term.write_negation]
          exact ⟨'-', _, rfl, rfl⟩
      | false =>
          have enclosed : operand.bindsWeakerThanUnary = true := by
            simp [Term.bindsWeakerThanUnary, isOperator, isUnary]
          rw [enclosed, Term.writeOperand_true]
          exact ⟨'(', _, rfl, rfl⟩

theorem isReadable_negation {operand : Term} (lexical : operand.isLexical = true)
    (readable : IsReadable operand) (origin : Origin) :
    IsReadable (.operation .negation [operand] origin) := by
  refine ⟨fun rest => ?_, fun rest ends => opens_operand ?_⟩
  · rw [Term.write_negation]
    exact ⟨'-', _, rfl, by decide⟩
  · rw [Term.write_negation]
    cases signed : Term.signedNumber? .negation [operand] with
    | some number =>
        obtain ⟨value, origin, rfl, natural, rfl⟩ := Term.eq_of_signedNumber? signed
        simp only [Term.reread, signed]
        exact reads_signed lexical natural ends.name
    | none =>
        obtain ⟨first, others, shape, noDigit⟩ := writeOperand_cons lexical signed rest
        have noDigits : ∀ first ∈
            (operand.writeOperand operand.bindsWeakerThanUnary rest).head?,
            first.isDigit = false := by
          rw [shape]
          intro character isFirst
          cases isFirst
          exact noDigit
        refine (reads_negation (startsTerm_operand _ readable.1) noDigits
          (readable.reads_operand Term.strength_of_unary ends)).imp ?_
        rintro found ⟨inner, isOperand, same⟩
        simp only [same, isOperand, Term.reread, signed, Term.rereadAll]

mutual

/-- Lexical terms are read from their texts. -/
theorem isReadable_of_isLexical : (term : Term) → term.isLexical = true → IsReadable term
  | .var x, lexical =>
      ⟨startsTerm_write _ lexical, fun rest ends => opens_operand (by
        rw [Term.write_var]
        rw [Term.isLexical] at lexical
        exact reads_variable lexical ends.name)⟩
  | .symbol (.number value) origin, lexical =>
      ⟨startsTerm_write _ lexical, fun rest ends => opens_operand (by
        rw [Term.write_symbol]
        rw [Term.isLexical] at lexical
        exact reads_number lexical ends.name)⟩
  | .symbol (.text value) origin, lexical =>
      ⟨startsTerm_write _ lexical, fun rest _ => opens_operand (reads_string value origin)⟩
  | .function name arguments origin, lexical => by
      refine ⟨startsTerm_write _ lexical, fun rest ends => opens_operand ?_⟩
      simp only [Term.isLexical, Bool.and_eq_true, Bool.or_eq_true, beq_iff_eq] at lexical
      have reads := allRead_of_areLexical arguments lexical.2
      rcases lexical.1 with rfl | valid
      · exact reads_tuple reads origin
      · exact reads_function valid reads origin ends.name ends.bracket
  | .operation operator [operand] origin, lexical => by
      simp only [Term.isLexical, Bool.and_eq_true] at lexical
      rw [Operator.isUnary_iff.mp lexical.1]
      exact isReadable_negation lexical.2 (isReadable_of_isLexical operand lexical.2) origin
  | .operation operator [left, right] origin, lexical => by
      simp only [Term.isLexical, Bool.and_eq_true, Bool.not_eq_true'] at lexical
      exact isReadable_binary lexical.1.1 (isReadable_of_isLexical left lexical.1.2)
        (isReadable_of_isLexical right lexical.2) origin
  | .operation _ [] _, lexical => by cases lexical
  | .operation _ (_ :: _ :: _ :: _) _, lexical => by cases lexical

theorem allRead_of_areLexical : (terms : List Term) → Term.areLexical terms = true → AllRead terms
  | [], _ => by simp [AllRead]
  | term :: terms, lexical => by
      simp only [Term.areLexical, Bool.and_eq_true] at lexical
      exact List.forall_mem_cons.mpr ⟨isReadable_of_isLexical term lexical.1,
        allRead_of_areLexical terms lexical.2⟩

end

end SoftRules.Grammar
