import Mathlib.Data.List.DropRight
import SoftRules.Proofs.Grammar.Directive
import SoftRules.Proofs.Grammar.Recursion
import SoftRules.Proofs.Language.Faithful
import SoftRules.Proofs.Parser.Acceptance

/-!
Whatever the grammar accepts is lexical.

Each production has one lemma. Recursive productions preserve lexicality, and so do the families
that they form. Two lemmas need more than the values: a head is a literal only if it cannot be read
as an aggregate, and the text of a directive is cut at its first period and trimmed.
-/

set_option autoImplicit false

namespace SoftRules.Grammar

open SoftRules.Parser

theorem answers_name (isFirst : Char → Bool) (cursor : Cursor) :
    (name isFirst).Answers cursor fun found _ => isName isFirst found = true := by
  refine .bind (answers_satisfy _ _ cursor) ?_
  intro first next foundFirst
  refine .bind (answers_takeWhile _ next) ?_
  rintro others _ ⟨rfl, -⟩
  apply Answers.pure
  simp only [isName, String.toList_ofList, foundFirst.1, Bool.true_and]
  exact List.all_takeWhile

theorem answers_variableName (cursor : Cursor) :
    variableName.Answers cursor fun found _ => isName isVariableStart found.name = true :=
  .located (.expecting _ (.bind (answers_name _ cursor) fun _ _ isValid => .pure fun _ => isValid))

theorem answers_integer (cursor : Cursor) :
    integer.Answers cursor fun value _ => Number.fitsInt64 value = true := by
  refine .convert ((answers_trivially _ cursor).imp ?_)
  rintro ⟨negative, digits⟩ next - value converted
  simp only at converted
  generalize (if negative = true then -(Number.ofDigits digits : Int)
    else (Number.ofDigits digits : Int)) = number at converted
  split at converted
  · cases converted
  · split at converted
    · cases converted
    · next notSmall notLarge =>
        cases converted
        simp only [Number.fitsInt64, Bool.and_eq_true, decide_eq_true_eq]
        exact ⟨Int.not_lt.mp notSmall, Int.not_lt.mp notLarge⟩

theorem isLexical_relocate (term : Term) (origin : Origin) :
    (Located.relocate origin term).isLexical = term.isLexical := by
  rcases term with _ | ⟨_ | _, _⟩ | _ | ⟨operator, _ | ⟨_, _ | ⟨_, _ | _⟩⟩, _⟩ <;> rfl

section Terms

variable {term : Parser Term}
  (lexical : ∀ cursor, term.Answers cursor fun found _ => found.isLexical = true)

include lexical

theorem answers_arguments (cursor : Cursor) :
    (arguments term).Answers cursor fun found _ => Term.areLexical found.1 = true := by
  refine .after fun _ next => ?_
  refine .after fun _ next => ?_
  refine .bind (answers_separated lexical next) fun terms next areLexical => ?_
  refine .after fun _ next => ?_
  refine .after fun _ next => ?_
  refine .after fun _ next => ?_
  exact .pure ((Term.areLexical_iff terms).mpr areLexical)

theorem answers_optional_arguments (cursor : Cursor) :
    (optional (arguments term)).Answers cursor fun found _ =>
      Term.areLexical ((found.map Prod.fst).getD []) = true :=
  .optional (answers_arguments lexical cursor) fun _ => rfl

theorem answers_functionTerm (cursor : Cursor) :
    (functionTerm term).Answers cursor fun found _ =>
      found.isNamedFunction = true ∧ found.isLexical = true := by
  refine .located (.bind (answers_name _ cursor) fun name next isValid => ?_)
  refine .bind (answers_optional_arguments lexical next) fun arguments next areLexical => ?_
  apply Answers.pure
  intro origin
  change (name != "") = true ∧ ((name == "" || isName Char.isLower name) && _) = true
  refine ⟨?_, by simp [isValid, areLexical]⟩
  rw [bne_iff_ne]
  rintro rfl
  cases isValid

theorem answers_tuple (cursor : Cursor) :
    (tuple term).Answers cursor fun found _ => found.isLexical = true := by
  refine .bind (answers_arguments lexical cursor) fun found next areLexical => ?_
  split
  · next single =>
      apply Answers.pure
      simpa [Term.areLexical] using areLexical
  · apply Answers.pure
    simpa [Term.tuple, Term.isLexical] using areLexical

theorem answers_primary (cursor : Cursor) :
    (primary term).Answers cursor fun found _ => found.isLexical = true := by
  have alternatives : AnswersOne cursor (fun found _ => found.isLexical = true)
      [do return .var (← variableName), do return .text (← quotedText), functionTerm term,
        tuple term] := by
    refine ⟨?_, fun _ => ⟨?_, fun _ => ⟨?_, fun _ => ⟨?_, fun _ => trivial⟩⟩⟩⟩
    · exact .bind (answers_variableName cursor) fun _ _ isValid => .pure isValid
    · exact .after fun _ _ => .pure rfl
    · exact (answers_functionTerm lexical cursor).imp fun _ _ found => found.2
    · exact answers_tuple lexical cursor
  refine .located ((Answers.firstOf alternatives).imp fun found next isLexical origin => ?_)
  rwa [isLexical_relocate]

end Terms

section Operations

variable {operation : Nat → Parser Term}
  (lexical : ∀ strength cursor,
    (operation strength).Answers cursor fun found _ => found.isLexical = true)

include lexical

theorem answers_operand (cursor : Cursor) :
    (operand operation).Answers cursor fun found _ => found.isLexical = true := by
  refine .firstOf ⟨?_, fun _ => ⟨?_, fun _ => ⟨?_, fun _ => trivial⟩⟩⟩
  · exact .located (.bind (answers_integer cursor) fun _ _ fits => .pure fun _ => fits)
  · refine .located (.after fun _ next => ?_)
    refine .after fun _ next => ?_
    exact .bind (lexical _ next) fun _ _ isLexical => .pure fun _ => isLexical
  · exact answers_primary (fun cursor => .expecting _ (lexical 0 cursor)) cursor

omit lexical in
theorem answers_infixOperator (cursor : Cursor) :
    infixOperator.Answers cursor fun found _ => found.isUnary = false := by
  refine .after fun _ next => .firstOf (answersOne_of_forall ?_)
  intro parser member
  obtain ⟨operator, isBinary, rfl⟩ := List.mem_map.mp member
  have notUnary : ∀ operator ∈ Operator.binary, operator.isUnary = false := by decide
  exact .after fun _ _ => .pure (notUnary operator isBinary)

theorem answers_continuation (strength : Nat) (cursor : Cursor) :
    (continuation operation strength).Answers cursor fun found _ =>
      ∀ other ∈ found, other.1.isUnary = false ∧ other.2.1.isLexical = true := by
  have operators : (optional infixOperator).Answers cursor fun found _ =>
      ∀ operator ∈ found, operator.isUnary = false := by
    refine .optional ((answers_infixOperator cursor).imp ?_) fun _ operator member => nomatch member
    rintro operator next isBinary _ ⟨⟩
    exact isBinary
  refine .bind operators fun found next areBinary => ?_
  cases found with
  | none => exact .pure fun other member => nomatch member
  | some operator =>
      simp only
      split
      · exact .pure fun other member => nomatch member
      · refine .after fun _ next => ?_
        refine .bind (lexical _ next) fun right next isLexical => ?_
        refine .offset (.pure ?_)
        rintro _ ⟨⟩
        exact ⟨areBinary operator rfl, isLexical⟩

theorem answers_operationStep (strength : Nat) (cursor : Cursor) :
    (operationStep operation strength).Answers cursor fun found _ => found.isLexical = true := by
  refine .offset (.bind (answers_operand lexical cursor) fun first next isLexical => ?_)
  refine .bind (answers_rounds (answers_continuation lexical strength) next) ?_
  intro others last areLexical
  apply Answers.pure
  induction others generalizing first with
  | nil => exact isLexical
  | cons other others inductionHypothesis =>
      obtain ⟨⟨isBinary, rightLexical⟩, areLexical⟩ := List.forall_mem_cons.mp areLexical
      refine inductionHypothesis _ ?_ areLexical
      simp [Term.isLexical, isBinary, isLexical, rightLexical]

end Operations

theorem answers_operation (strength : Nat) (cursor : Cursor) :
    (operation strength).Answers cursor fun found _ => found.isLexical = true :=
  answers_fix (fun _ lexical => answers_operationStep lexical) strength cursor

theorem answers_term (cursor : Cursor) :
    term.Answers cursor fun found _ => found.isLexical = true :=
  .expecting _ (answers_operation 0 cursor)

/-! Literals. -/

theorem answers_comparison (cursor : Cursor) :
    comparison.Answers cursor fun found _ => found.isLexical = true := by
  refine .located (.bind (answers_term cursor) fun left next leftLexical => ?_)
  refine .after fun _ next => ?_
  refine .after fun _ next => ?_
  refine .after fun _ next => ?_
  refine .bind (answers_term next) fun right next rightLexical => ?_
  refine .pure fun origin => ?_
  change (left.isLexical && right.isLexical) = true
  rw [leftLexical, rightLexical]
  rfl

theorem answers_predicate (cursor : Cursor) :
    predicate.Answers cursor fun found _ => found.isLexical = true := by
  refine .located (.after fun negation next => ?_)
  refine .bind (answers_functionTerm answers_term next) fun function next isFunction => ?_
  obtain ⟨isNamed, isLexical⟩ := isFunction
  refine .pure fun origin => ?_
  cases negation with
  | none =>
      change (function.isAtom && function.isLexical) = true
      obtain _ | _ | ⟨name, arguments, _⟩ | _ := function
      case function => exact Bool.and_eq_true_iff.mpr ⟨isNamed, isLexical⟩
      all_goals cases isNamed
  | some _ => exact Bool.and_eq_true_iff.mpr ⟨isNamed, isLexical⟩

theorem answers_leadingGuard (cursor : Cursor) :
    leadingGuard.Answers cursor fun found _ => Guard.isLexical found = true := by
  refine .optional ?_ fun _ => rfl
  refine .bind (.bind (answers_term cursor) fun bound next isLexical => ?_) fun _ next isLexical =>
    .after fun _ _ => .pure isLexical
  exact .after fun _ _ => .pure isLexical

theorem answers_trailingGuard (cursor : Cursor) :
    trailingGuard.Answers cursor fun found _ => Guard.isLexical found = true := by
  refine .optional ?_ fun _ => rfl
  refine .after fun _ next => ?_
  refine .after fun _ next => ?_
  exact .bind (answers_term next) fun bound next isLexical => .pure isLexical

section Literals

variable {literal : Parser Literal}
  (lexical : ∀ cursor, literal.Answers cursor fun found _ => found.isLexical = true)

include lexical

theorem answers_condition (cursor : Cursor) :
    (condition literal).Answers cursor fun found _ => Literal.areLexical found = true := by
  have found : (optional do
      spacedToken ":"
      separated1 (spacedToken ",") literal).Answers cursor
      fun found _ => Literal.areLexical (found.getD []) = true := by
    refine .optional (.after fun _ next => ?_) fun _ => rfl
    refine (answers_separated1 lexical next).imp fun literals _ areLexical => ?_
    exact (Literal.areLexical_iff literals).mpr areLexical.2
  exact .bind found fun _ _ areLexical => .pure areLexical

theorem answers_conditional (cursor : Cursor) :
    (conditional literal).Answers cursor fun found _ => found.isLexical = true := by
  refine .located (.bind (lexical cursor) fun first next isLexical => ?_)
  refine .bind (answers_condition lexical next) fun condition next areLexical => ?_
  exact .pure fun origin => Bool.and_eq_true_iff.mpr ⟨isLexical, areLexical⟩

theorem answers_element (cursor : Cursor) :
    (element literal).Answers cursor fun found _ => found.isLexical = true := by
  refine .bind (answers_separated1 answers_term cursor) fun terms next found => ?_
  obtain ⟨nonempty, termsLexical⟩ := found
  refine .bind (answers_condition lexical next) fun condition next areLexical => ?_
  apply Answers.pure
  simp [Element.isLexical, nonempty, (Term.areLexical_iff terms).mpr termsLexical, areLexical]

omit lexical in
theorem answers_braced {α : Type} {content : Parser α} {good : α → Prop}
    (answers : ∀ cursor, content.Answers cursor fun found _ => good found) (cursor : Cursor) :
    (braced content).Answers cursor fun found _ => good found := by
  refine .after fun _ next => ?_
  refine .after fun _ next => ?_
  refine .bind (answers next) fun found next isGood => ?_
  refine .after fun _ next => ?_
  exact .after fun _ next => .pure isGood

theorem answers_elements (cursor : Cursor) :
    (braced (separated (spacedToken ";") (element literal))).Answers cursor fun found _ =>
      Element.areLexical found = true := by
  refine (answers_braced (answers_separated (answers_element lexical)) cursor).imp ?_
  exact fun elements _ areLexical => (Element.areLexical_iff elements).mpr areLexical

theorem answers_aggregate (cursor : Cursor) :
    (aggregate literal).Answers cursor fun found _ => found.isLexical = true := by
  refine .located (.bind (answers_leadingGuard cursor) fun left next leftLexical => ?_)
  refine .bind (answers_braced (answers_separated (answers_conditional lexical)) next) ?_
  intro elements next areLexical
  refine .bind (answers_trailingGuard next) fun right next rightLexical => ?_
  refine .pure fun origin => ?_
  change (Guard.isLexical left && Conditional.areLexical elements && Guard.isLexical right) = true
  rw [leftLexical, (Conditional.areLexical_iff elements).mpr areLexical, rightLexical]
  rfl

theorem answers_bodyAggregate (cursor : Cursor) :
    (bodyAggregate literal).Answers cursor fun found _ => found.isLexical = true := by
  refine .located (.bind (answers_leadingGuard cursor) fun left next leftLexical => ?_)
  refine .after fun function next => ?_
  refine .after fun _ next => ?_
  refine .bind (answers_elements lexical next) fun elements next areLexical => ?_
  refine .bind (answers_trailingGuard next) fun right next rightLexical => ?_
  refine .pure fun origin => ?_
  change (Guard.isLexical left && Element.areLexical elements && Guard.isLexical right) = true
  rw [leftLexical, areLexical, rightLexical]
  rfl

omit lexical in
theorem answers_boolean (cursor : Cursor) :
    boolean.Answers cursor fun found _ => ∃ value origin, found = .boolean value origin := by
  refine .located (.firstOf ⟨?_, fun _ => ⟨?_, fun _ => trivial⟩⟩)
  · exact .after fun _ _ => .pure fun origin => ⟨true, origin, rfl⟩
  · exact .after fun _ _ => .pure fun origin => ⟨false, origin, rfl⟩

theorem answers_atom (cursor : Cursor) :
    (atom literal).Answers cursor fun found _ => found.isLexical = true := by
  refine .expecting _ (.firstOf ⟨?_, fun _ => ⟨?_, fun _ => ⟨?_, fun _ => ⟨?_, fun _ => ⟨?_,
    fun _ => trivial⟩⟩⟩⟩⟩)
  · refine (answers_boolean cursor).imp ?_
    rintro _ _ ⟨value, origin, rfl⟩
    rfl
  · exact .bind (answers_aggregate lexical cursor) fun _ _ isLexical => .pure isLexical
  · exact .bind (answers_bodyAggregate lexical cursor) fun _ _ isLexical => .pure isLexical
  · exact answers_comparison cursor
  · exact answers_predicate cursor

theorem answers_literalStep (cursor : Cursor) :
    (literalStep literal).Answers cursor fun found _ => found.isLexical = true := by
  refine .located (.expecting _ (.after fun sign next => ?_))
  exact .bind (answers_atom lexical next) fun atom _ isLexical => .pure fun origin => isLexical

end Literals

theorem answers_literal (cursor : Cursor) :
    literal.Answers cursor fun found _ => found.isLexical = true :=
  answers_fix (fun _ lexical _ => answers_literalStep (lexical ())) () cursor

/-! Statements. -/

theorem answers_theoryAtom (cursor : Cursor) :
    theoryAtom.Answers cursor fun found _ => found.isLexical = true := by
  have elements (cursor : Cursor) : (optional do
      space
      braced (separated (spacedToken ";") (element literal))).Answers cursor
      fun found _ => Element.areLexical (found.getD []) = true := by
    refine .optional (.after fun _ next => ?_) fun _ => rfl
    exact answers_elements answers_literal next
  have guards (cursor : Cursor) : (optional do
      space
      let relation ← relation
      space
      return ({ relation, term := ← term } : Guard)).Answers cursor
      fun found _ => Guard.isLexical found = true := by
    refine .optional (.after fun _ next => ?_) fun _ => rfl
    refine .after fun _ next => ?_
    refine .after fun _ next => ?_
    exact .bind (answers_term next) fun _ _ isLexical => .pure isLexical
  refine .located (.expecting _ (.after fun _ next => ?_))
  refine .bind (answers_name _ next) fun name next isValid => ?_
  refine .bind (answers_optional_arguments answers_term next) fun arguments next areLexical => ?_
  refine .bind (elements next) fun elements next elementsLexical => ?_
  refine .bind (guards next) fun guard next guardLexical => ?_
  refine .pure fun origin => ?_
  simp [Located.relocate, TheoryAtom.isLexical, isValid, areLexical, elementsLexical, guardLexical]

theorem answers_sign (cursor : Cursor) :
    sign.Answers cursor fun found next => found = .plain → next = cursor := by
  refine .firstOf ⟨?_, fun _ => ⟨?_, fun _ => ⟨.pure fun _ => rfl, fun _ => trivial⟩⟩⟩
  · refine .after fun _ next => ?_
    exact .after fun _ next => .pure fun isPlain => nomatch isPlain
  · exact .after fun _ next => .pure fun isPlain => nomatch isPlain

/-- Aggregates are read by their own productions. -/
theorem answers_atom_kind (literal : Parser Literal) (cursor : Cursor) :
    (atom literal).Answers cursor fun found next =>
      (∀ content, found = .aggregate content →
        (aggregate literal).read cursor = .accept content next) ∧
      ∀ content, found = .bodyAggregate content →
        (bodyAggregate literal).read cursor = .accept content next := by
  refine .expecting _ (.firstOf ⟨?_, fun _ => ⟨?_, fun _ => ⟨?_, fun _ => ⟨?_, fun _ => ⟨?_,
    fun _ => trivial⟩⟩⟩⟩⟩)
  · refine (answers_boolean cursor).imp ?_
    rintro _ _ ⟨value, origin, rfl⟩
    exact ⟨by rintro _ ⟨⟩, by rintro _ ⟨⟩⟩
  · refine .bind (answers_read _ cursor) fun content next accepted => .pure ⟨?_, by rintro _ ⟨⟩⟩
    rintro _ ⟨⟩
    exact accepted
  · refine .bind (answers_read _ cursor) fun content next accepted => .pure ⟨by rintro _ ⟨⟩, ?_⟩
    rintro _ ⟨⟩
    exact accepted
  · refine .located (.after fun _ _ => .after fun _ _ => .after fun _ _ => .after fun _ _ =>
      .after fun _ _ => .pure fun _ => ⟨?_, ?_⟩)
    · rintro _ ⟨⟩
    · rintro _ ⟨⟩
  · refine .located (.after fun _ _ => .after fun _ _ => .pure fun _ => ⟨?_, ?_⟩)
    · rintro _ ⟨⟩
    · rintro _ ⟨⟩

theorem answers_literal_aggregate (cursor : Cursor) :
    literal.Answers cursor fun found _ => found.sign = .plain →
      ∀ content, found.atom = .aggregate content → ¬ (aggregate literal).RejectsAt cursor := by
  rw [literal_eq]
  refine .located (.expecting _ (.bind (answers_sign cursor) fun sign next unmoved => ?_))
  refine .bind (answers_atom_kind literal next) fun atom next kind => .pure ?_
  rintro origin isPlain content isAggregate ⟨error, rejected⟩
  have accepted := kind.1 content isAggregate
  rw [unmoved isPlain, literal_eq, rejected] at accepted
  cases accepted

theorem answers_head (cursor : Cursor) :
    head.Answers cursor fun found _ => found.isLexical = true := by
  refine .expecting _ (.firstOf ⟨?_, fun _ => ⟨?_, fun noAggregate => ⟨?_, fun _ => trivial⟩⟩⟩)
  · exact .bind (answers_theoryAtom cursor) fun _ _ isLexical => .pure isLexical
  · exact .bind (answers_aggregate answers_literal cursor) fun _ _ isLexical => .pure isLexical
  · refine .bind ((answers_literal cursor).and (answers_literal_aggregate cursor)) ?_
    rintro ⟨sign, atom, origin⟩ next ⟨isLexical, aggregated⟩
    apply Answers.pure
    cases sign <;> cases atom
    case plain.aggregate content => exact absurd noAggregate.of_map (aggregated rfl content rfl)
    all_goals exact isLexical

theorem answers_bodyElement (cursor : Cursor) :
    bodyElement.Answers cursor fun found _ => found.isLexical = true := by
  refine .expecting _ (.firstOf ⟨?_, fun _ => ⟨?_, fun _ => trivial⟩⟩)
  · exact .bind (answers_theoryAtom cursor) fun _ _ isLexical => .pure isLexical
  · refine .bind (answers_conditional answers_literal cursor) fun element next isLexical => .pure ?_
    obtain ⟨literal, condition, origin⟩ := element
    split
    · exact (Bool.and_eq_true_iff.mp isLexical).1
    · next nonempty =>
        simp only [Bool.not_eq_true] at nonempty
        simp [BodyElement.isLexical, nonempty, isLexical]

theorem answers_body (cursor : Cursor) :
    body.Answers cursor fun found _ => found ≠ [] ∧ found.all BodyElement.isLexical = true :=
  (answers_separated1 answers_bodyElement cursor).imp fun _ _ found =>
    ⟨found.1, List.all_eq_true.mpr found.2⟩

theorem isLexical_weightTerm (text : List Char) : (weightTerm text).isLexical = true := by
  unfold weightTerm
  split
  · split
    · next fits => exact fits
    · rfl
  · rfl

theorem answers_weight (cursor : Cursor) :
    weight.Answers cursor fun found _ => found.isLexical = true := by
  have atom : (located do
      return { name := "weight", arguments := [weightTerm (← weightNumber)] : TheoryAtom }).Answers
      cursor fun found _ => found.isLexical = true := by
    refine .located (.after fun text next => .pure fun origin => ?_)
    simp [Located.relocate, TheoryAtom.isLexical, Term.areLexical, isLexical_weightTerm,
      Element.areLexical, Guard.isLexical]
    decide
  refine .expecting _ (.bind atom fun atom next isLexical => ?_)
  refine .after fun _ next => ?_
  refine .after fun _ next => ?_
  exact .after fun _ next => .pure isLexical

theorem answers_headAndBody (cursor : Cursor) :
    headAndBody.Answers cursor fun found _ =>
      found.1.isLexical = true ∧ found.2.all BodyElement.isLexical = true := by
  have bodies (cursor : Cursor) : (optional do
      spacedToken ":-"
      commit body).Answers cursor
      fun found _ => (found.getD []).all BodyElement.isLexical = true := by
    refine .optional (.after fun _ next => ?_) fun _ => rfl
    exact .commit ((answers_body next).imp fun _ _ found => found.2)
  refine .firstOf ⟨?_, fun _ => ⟨?_, fun _ => trivial⟩⟩
  · refine .after fun _ next => ?_
    refine .after fun _ next => ?_
    exact .bind (.commit (answers_body next)) fun _ _ found => .pure ⟨rfl, found.2⟩
  · refine .bind (answers_head cursor) fun head next isLexical => ?_
    exact .bind (bodies next) fun _ _ areLexical => .pure ⟨isLexical, areLexical⟩

theorem answers_rule (cursor : Cursor) :
    rule.Answers cursor fun found _ => (Statement.rule found).isLexical = true := by
  have weights : (optional do
      let weight ← weight
      space
      return weight).Answers cursor
      fun found _ => (found.map BodyElement.theory).toList.all BodyElement.isLexical = true := by
    refine .optional (.bind (answers_weight cursor) fun weight next isLexical => ?_) fun _ => rfl
    refine .after fun _ next => .pure ?_
    simpa [BodyElement.isLexical] using isLexical
  refine .located (.expecting _ (.bind weights fun weight next weightLexical => ?_))
  refine .bind (answers_headAndBody next) fun parts next partsLexical => ?_
  obtain ⟨head, body⟩ := parts
  refine .after fun _ next => ?_
  refine .after fun _ next => .pure fun origin => ?_
  simp only [Located.relocate, Statement.isLexical, List.all_append, Bool.and_eq_true]
  exact ⟨partsLexical.1, partsLexical.2, weightLexical⟩

theorem answers_weakConstraint (cursor : Cursor) :
    weakConstraint.Answers cursor fun found _ =>
      (Statement.weakConstraint found).isLexical = true := by
  have priorities (cursor : Cursor) : (optional do
      spacedToken "@"
      term).Answers cursor fun found _ => (found.getD (.number 0)).isLexical = true := by
    refine .optional (.after fun _ next => ?_) fun _ => rfl
    exact answers_term next
  have behind (cursor : Cursor) : (do
      spacedToken ","
      term : Parser Term).Answers cursor fun found _ => found.isLexical = true :=
    .after fun _ next => answers_term next
  refine .located (.expecting _ (.after fun _ next => ?_))
  refine .after fun _ next => .commit ?_
  refine .bind (answers_body next) fun body next bodyLexical => ?_
  refine .after fun _ next => ?_
  refine .after fun _ next => ?_
  refine .after fun _ next => ?_
  refine .bind (answers_term next) fun weight next weightLexical => ?_
  refine .bind (priorities next) fun priority next priorityLexical => ?_
  refine .bind (answers_many behind next) fun terms next termsLexical => ?_
  refine .after fun _ next => ?_
  refine .after fun _ next => .pure fun origin => ?_
  simp [Located.relocate, Statement.isLexical, bodyLexical.1, bodyLexical.2, Term.areLexical,
    weightLexical, priorityLexical, (Term.areLexical_iff terms).mpr termsLexical]

/-! Directives. -/

theorem isBlank_letter {character : Char} (isAlpha : character.isAlpha = true) :
    Text.isBlank character = false := by
  have upper : 'A'.val.toNat = 65 ∧ 'Z'.val.toNat = 90 := ⟨rfl, rfl⟩
  have lower : 'a'.val.toNat = 97 ∧ 'z'.val.toNat = 122 := ⟨rfl, rfl⟩
  have value : character.toNat = character.val.toNat := rfl
  simp only [isAlpha_eq, isUpper_eq, isLower_eq, Bool.or_eq_true, Bool.and_eq_true,
    decide_eq_true_eq, UInt32.le_iff_toNat_le, ge_iff_le] at isAlpha
  simp only [Text.isBlank, Text.blankRanges, List.any_cons, List.any_nil, Bool.or_false,
    Bool.or_eq_false_iff, Bool.and_eq_false_iff, decide_eq_false_iff_not]
  omega

theorem trim_directive {name : List Char} (letters : ∀ letter ∈ name, letter.isAlpha = true)
    (content : List Char) :
    Text.trim ('#' :: (name ++ content)) = '#' :: (name ++ content.rdropWhile Text.isBlank) := by
  have solid : (name.reverse ++ ['#']).dropWhile Text.isBlank = name.reverse ++ ['#'] := by
    cases reversed : name.reverse with
    | nil => rfl
    | cons last others =>
        have isLetter := letters last (List.mem_reverse.mp (by rw [reversed]; simp))
        rw [List.cons_append, List.dropWhile_cons_of_neg (by simp [isBlank_letter isLetter])]
  have start : ('#' :: (name ++ content)).dropWhile Text.isBlank = '#' :: (name ++ content) :=
    List.dropWhile_cons_of_neg (by decide)
  have reversed : ('#' :: (name ++ content)).reverse =
      content.reverse ++ (name.reverse ++ ['#']) := by simp
  rw [Text.trim, start, reversed, List.dropWhile_append, solid, List.rdropWhile]
  split
  · next blank =>
      rw [List.isEmpty_iff.mp blank]
      simp
  · simp

/-- A directive still ends where it did if its last characters are left out. -/
theorem partBefore?_start {start content left : List Char}
    (isPart : partBefore? endsDirective (content ++ left) = some content)
    (isStart : start <+: content) :
    partBefore? endsDirective (start ++ ['.', '\n']) = some start := by
  induction start generalizing content with
  | nil => rfl
  | cons first start inductionHypothesis =>
      obtain ⟨others, rfl⟩ := isStart
      simp only [List.cons_append, partBefore?] at isPart ⊢
      split at isPart
      · cases isPart
      · next continues =>
          obtain ⟨behind, isBehind, shape⟩ := Option.map_eq_some_iff.mp isPart
          cases shape
          have stillContinues : ¬ endsDirective (first :: (start ++ ['.', '\n'])) = true := by
            intro ends
            by_cases isPeriod : first = '.'
            · subst isPeriod
              cases start with
              | nil => exact absurd ends (by decide)
              | cons second start => exact continues ends
            · unfold endsDirective at ends
              split at ends
              · next shape => exact isPeriod (List.cons.inj shape).1
              · next shape => exact isPeriod (List.cons.inj shape).1
              · cases ends
          rw [if_neg stillContinues, inductionHypothesis isBehind (List.prefix_append _ _)]
          rfl

theorem isLexical_directive {name content rest : List Char}
    (parts : DirectiveParts name content rest) :
    (Directive.ofText ('#' :: (name ++ content))).isLexical = true := by
  have isStart := List.rdropWhile_prefix Text.isBlank content
  have again := List.rdropWhile_idempotent Text.isBlank content
  have trimmed := trim_directive parts.letters content
  generalize content.rdropWhile Text.isBlank = start at isStart again trimmed
  have isTrimmed := trim_directive parts.letters start
  rw [again] at isTrimmed
  have noLetter : start.takeWhile Char.isAlpha = [] := by
    cases start with
    | nil => rfl
    | cons first behind =>
        obtain ⟨others, rfl⟩ := isStart
        have refused := parts.stops first rfl
        rw [List.takeWhile_cons, refused]
        rfl
  have named : (name ++ start).takeWhile Char.isAlpha = name := by
    rw [List.takeWhile_append_of_pos parts.letters, noLetter, List.append_nil]
  have behind : (name ++ start).dropWhile Char.isAlpha = start := by
    rw [List.dropWhile_append_of_pos parts.letters]
    have split := @List.takeWhile_append_dropWhile _ Char.isAlpha start
    rwa [noLetter] at split
  simp only [Directive.isLexical, Directive.ofText, String.toList_ofList, trimmed, named, behind,
    isTrimmed, parts.unreserved, partBefore?_start parts.isPart isStart]
  simp [parts.nonempty]

theorem answers_directive (cursor : Cursor) :
    directive.Answers cursor fun found _ => found.isLexical = true := by
  refine (answers_directiveParts cursor).imp ?_
  rintro found next ⟨name, content, parts, -, same⟩
  have sameText : found.text = (Directive.ofText ('#' :: (name ++ content))).text := by
    simpa [Directive.erase] using same
  rw [Directive.isLexical, sameText]
  exact isLexical_directive parts

theorem answers_statement (cursor : Cursor) :
    statement.Answers cursor fun found _ => found.isLexical = true := by
  refine .expecting _ (.firstOf ⟨?_, fun _ => ⟨?_, fun _ => ⟨?_, fun _ => trivial⟩⟩⟩)
  · exact .bind (answers_directive cursor) fun _ _ isLexical => .pure isLexical
  · exact .bind (answers_weakConstraint cursor) fun _ _ isLexical => .pure isLexical
  · exact .bind (answers_rule cursor) fun _ _ isLexical => .pure isLexical

end SoftRules.Grammar

namespace SoftRules

open SoftRules.Parser SoftRules.Grammar

theorem Program.isLexical_of_parse {text : List Char} {program : Program}
    (accepted : Program.parse text = .ok program) : program.isLexical = true := by
  have statements (cursor : Cursor) :
      programStatement.Answers cursor fun found _ => found.isLexical = true :=
    .bind (.commit (answers_statement cursor)) fun _ _ isLexical =>
      .after fun _ _ => .pure isLexical
  have lexical : Grammar.program.Answers (.start text) fun found _ =>
      ∀ statement ∈ found, statement.isLexical = true :=
    .after fun _ next => answers_untilEnd statements next
  obtain ⟨_, -, areLexical⟩ := lexical.run accepted
  exact List.all_eq_true.mpr areLexical

theorem Program.length_le_of_parse {text : List Char} {program : Program}
    (accepted : Program.parse text = .ok program) : program.length ≤ text.length := by
  have before : space.Answers (.start text) fun _ next => next.rest.length ≤ text.length :=
    fun _ _ read => length_le_of_read read
  have count : Grammar.program.Answers (.start text) fun found _ => found.length ≤ text.length := by
    refine .bind before fun _ next shorter => ?_
    refine (answers_rounds_length _ next).imp fun found last least => ?_
    omega
  obtain ⟨_, -, least⟩ := count.run accepted
  exact least

end SoftRules
