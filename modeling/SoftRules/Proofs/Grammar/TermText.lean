import SoftRules.Proofs.Grammar.Operator

/-!
The texts of terms, and how they start and end.
-/

set_option autoImplicit false

namespace SoftRules

open SoftRules.Parser SoftRules.Grammar

/-- The text of a term in front of another text. -/
def Term.write (term : Term) (rest : List Char) : List Char := term.render.toList ++ rest

/-- The text of an operand, with parentheses if they are needed. -/
def Term.writeOperand (needed : Bool) (term : Term) (rest : List Char) : List Char :=
  (enclose needed term.render).toList ++ rest

theorem Term.writeOperand_false (term : Term) (rest : List Char) :
    term.writeOperand false rest = term.write rest := rfl

theorem Term.writeOperand_true (term : Term) (rest : List Char) :
    term.writeOperand true rest = '(' :: term.write (')' :: rest) := by
  simp [Term.writeOperand, enclose, Term.write]

theorem writeAll_append {ι : Type} (separator : List Char) (text : ι → List Char)
    (items : List ι) (rest : List Char) :
    writeAll separator (fun item rest => text item ++ rest) items rest =
      separator.intercalate (items.map text) ++ rest := by
  fun_induction writeAll separator (fun item rest => text item ++ rest) items rest with
  | case1 rest => rfl
  | case2 last rest => simp
  | case3 first second others rest inductionHypothesis =>
      simp only [inductionHypothesis, List.map_cons, List.intercalate_cons_cons, List.append_assoc]

theorem writeAll_render (separator : String) {ι : Type} (render : ι → String) (items : List ι)
    (rest : List Char) :
    writeAll separator.toList (fun item rest => (render item).toList ++ rest) items rest =
      (String.intercalate separator (items.map render)).toList ++ rest := by
  rw [writeAll_append, String.toList_intercalate, List.map_map]
  rfl

namespace Term

theorem write_var (x : Variable) (rest : List Char) :
    (Term.var x).write rest = x.name.toList ++ rest := by
  simp [Term.write, Term.render]

theorem write_symbol (value : Symbol) (origin : Origin) (rest : List Char) :
    (Term.symbol value origin).write rest = value.render.toList ++ rest := by
  simp [Term.write, Term.render]

theorem write_text (value : String) (origin : Origin) (rest : List Char) :
    (Term.symbol (.text value) origin).write rest =
      '"' :: (value.toList.flatMap escape ++ '"' :: rest) := by
  simp [Term.write, Term.render, Symbol.render]

theorem write_constant {name : String} (named : name ≠ "") (origin : Origin) (rest : List Char) :
    (Term.function name [] origin).write rest = name.toList ++ rest := by
  simp [Term.write, Term.render, named]

theorem write_function {name : String} (named : name ≠ "") {arguments : List Term}
    (nonempty : arguments ≠ []) (origin : Origin) (rest : List Char) :
    (Term.function name arguments origin).write rest =
      name.toList ++ '(' :: writeAll [','] Term.write arguments (')' :: rest) := by
  have isEmpty : arguments.isEmpty = false := List.isEmpty_eq_false_iff.mpr nonempty
  have texts := writeAll_render "," Term.render arguments (')' :: rest)
  change writeAll [','] Term.write arguments (')' :: rest) = _ at texts
  rw [texts]
  simp [Term.write, Term.render, named, isEmpty, Term.renderAll_eq]

theorem write_tuple (arguments : List Term) (origin : Origin) (rest : List Char) :
    (Term.function "" arguments origin).write rest =
      '(' :: writeAll [','] Term.write arguments
        ((if arguments.length == 1 then [','] else []) ++ ')' :: rest) := by
  have texts := writeAll_render "," Term.render arguments
    ((if arguments.length == 1 then [','] else []) ++ ')' :: rest)
  change writeAll [','] Term.write arguments _ = _ at texts
  rw [texts]
  by_cases single : arguments.length = 1
  · simp [Term.write, Term.render, single, Term.renderAll_eq]
  · simp [Term.write, Term.render, single, Term.renderAll_eq]

theorem write_negation (operand : Term) (origin : Origin) (rest : List Char) :
    (Term.operation .negation [operand] origin).write rest =
      '-' :: operand.writeOperand operand.bindsWeakerThanUnary rest := by
  simp [Term.write, Term.render, Operator.symbol, Operator.isUnary, Term.writeOperand]

theorem write_binary (operator : Operator) (left right : Term) (origin : Origin)
    (rest : List Char) :
    (Term.operation operator [left, right] origin).write rest =
      left.writeOperand (left.bindsWeakerThan operator false)
        (operator.symbol.toList ++
          right.writeOperand (right.bindsWeakerThan operator true) rest) := by
  simp [Term.write, Term.render, Term.writeOperand]

end Term

theorem Operator.isUnary_iff {operator : Operator} :
    operator.isUnary = true ↔ operator = .negation := by
  cases operator <;> simp [Operator.isUnary]

namespace Grammar

/-! Where terms start and end. -/

theorem startsTerm_name {isFirst : Char → Bool} {name : String} (valid : isName isFirst name = true)
    (starts : ∀ character, isFirst character = true → isTermStart character = true) :
    StartsTerm name.toList := by
  obtain ⟨first, others, shape, isStart, _⟩ := isName_cons valid
  exact ⟨first, others, shape, starts first isStart⟩

theorem startsTerm_number (value : Int) : StartsTerm (toString value).toList := by
  rw [toList_toString]
  obtain ⟨first, others, shape, isDigit⟩ := toDigits_cons value.natAbs
  split
  · exact ⟨'-', _, rfl, by decide⟩
  · refine ⟨first, others, shape, ?_⟩
    simp [isTermStart, Char.isAlphanum, isDigit]

theorem startsTerm_operand (needed : Bool) {term : Term} {rest : List Char}
    (starts : ∀ rest, StartsTerm (term.write rest)) : StartsTerm (term.writeOperand needed rest) := by
  cases needed with
  | false => exact starts rest
  | true =>
      rw [Term.writeOperand_true]
      exact ⟨'(', _, rfl, by decide⟩

theorem startsTerm_write : (term : Term) → term.isLexical = true → (rest : List Char) →
    StartsTerm (term.write rest)
  | .var x, lexical, rest => by
      rw [Term.isLexical] at lexical
      rw [Term.write_var]
      refine (startsTerm_name lexical ?_).append rest
      intro character isStart
      simp only [isVariableStart, Bool.or_eq_true] at isStart
      rcases isStart with isUpper | isUnderscore
      · simp [isTermStart, Char.isAlphanum, isAlpha_eq, isUpper]
      · simp [isTermStart, isUnderscore]
  | .symbol (.number value) _, _, rest => by
      rw [Term.write_symbol]
      exact (startsTerm_number value).append rest
  | .symbol (.text value) _, _, rest => by
      rw [Term.write_text]
      exact ⟨'"', _, rfl, by decide⟩
  | .function name arguments _, lexical, rest => by
      simp only [Term.isLexical, Bool.and_eq_true, Bool.or_eq_true, beq_iff_eq] at lexical
      by_cases tuple : name = ""
      · rw [tuple, Term.write_tuple]
        exact ⟨'(', _, rfl, by decide⟩
      · have valid := lexical.1.resolve_left tuple
        have starts : StartsTerm name.toList := by
          refine startsTerm_name valid fun character isLower => ?_
          simp [isTermStart, Char.isAlphanum, isAlpha_eq, isLower]
        by_cases nonempty : arguments = []
        · rw [nonempty, Term.write_constant tuple]
          exact starts.append _
        · rw [Term.write_function tuple nonempty]
          exact starts.append _
  | .operation operator [operand] _, lexical, rest => by
      simp only [Term.isLexical, Bool.and_eq_true] at lexical
      rw [Operator.isUnary_iff.mp lexical.1, Term.write_negation]
      exact ⟨'-', _, rfl, by decide⟩
  | .operation operator [left, right] _, lexical, rest => by
      simp only [Term.isLexical, Bool.and_eq_true] at lexical
      rw [Term.write_binary]
      exact startsTerm_operand _ (startsTerm_write left lexical.1.2)
  | .operation _ [] _, lexical, _ => by cases lexical
  | .operation _ (_ :: _ :: _ :: _) _, lexical, _ => by cases lexical

/-- A term whose operators bind at least as tight as `strength` ends in front of the text. -/
structure EndsTerm (strength : Nat) (rest : List Char) : Prop where
  name : EndsName rest
  bracket : '(' ∉ rest.head?
  operator : Ends (continuation operation strength) rest

theorem EndsTerm.mono {strength other : Nat} {rest : List Char} (ends : EndsTerm strength rest)
    (less : strength ≤ other) : EndsTerm other rest :=
  ⟨ends.name, ends.bracket, ends_continuation_mono ends.operator less⟩

/-- Characters that neither go on with a term nor stand in front of an operator. -/
def isBreak (character : Char) : Bool :=
  !isNameCharacter character && character != '(' && !isSpace character && character != '%' &&
    !isOperatorStart character && character != '.'

theorem endsTerm_break {first : Char} (isStop : isBreak first = true) (strength : Nat)
    (others : List Char) : EndsTerm strength (first :: others) := by
  simp only [isBreak, Bool.and_eq_true, Bool.not_eq_true', bne_iff_ne] at isStop
  obtain ⟨⟨⟨⟨⟨noName, noBracket⟩, noSpace⟩, noComment⟩, noOperator⟩, noPeriod⟩ := isStop
  refine ⟨?_, ?_, ends_continuation ?_⟩
  · intro next isNext
    cases isNext
    exact noName
  · intro isFirst
    cases isFirst
    exact noBracket rfl
  · refine rejects_infixOperator (solid_cons noSpace noComment) [] (by simp) ?_ ?_
    · intro next isNext
      cases isNext
      exact noOperator
    · rintro ⟨rest, shape⟩
      cases shape
      exact noPeriod rfl

/-- Behind a blank, a term goes on only with an operator. -/
theorem endsTerm_blank {text : List Char} (solid : Solid text)
    (noOperator : ∀ first ∈ text.head?, isOperatorStart first = false)
    (noInterval : ¬ ['.', '.'] <+: text) (strength : Nat) : EndsTerm strength (' ' :: text) := by
  refine ⟨?_, ?_, ends_continuation ?_⟩
  · intro next isNext
    cases isNext
    decide
  · intro isFirst
    cases isFirst
  · exact rejects_infixOperator solid [' '] (by simp [isSpace]) noOperator noInterval

theorem endsTerm_period {text : List Char} (noPeriod : '.' ∉ text.head?) (strength : Nat) :
    EndsTerm strength ('.' :: text) := by
  refine ⟨?_, ?_, ends_continuation ?_⟩
  · intro next isNext
    cases isNext
    decide
  · intro isFirst
    cases isFirst
  · refine rejects_infixOperator (solid_cons (by decide) (by decide)) [] (by simp) ?_ ?_
    · intro next isNext
      cases isNext
      rfl
    · rintro ⟨rest, shape⟩
      cases shape
      exact noPeriod rfl

/-- An operator that binds weaker ends a term. -/
theorem endsTerm_operator {operator : Operator} (isBinary : operator.isUnary = false) {strength : Nat}
    (weaker : operator.strength < strength) {text : List Char} (starts : StartsTerm text) :
    EndsTerm strength (operator.symbol.toList ++ text) := by
  have behind : Operator.Behind operator text := fun _ => starts.head_ne (by decide)
  have reads := reads_infixOperator isBinary behind [] (by simp)
  refine ⟨?_, ?_, ends_continuation_weaker reads weaker⟩
  · intro next isNext
    cases operator <;> cases isNext <;> decide
  · intro isFirst
    cases operator <;> cases isFirst

end Grammar

end SoftRules
