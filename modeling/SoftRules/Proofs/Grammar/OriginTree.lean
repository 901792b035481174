import SoftRules.Proofs.Grammar.Layout

/-!
The ranges in a program form a tree.

Each production lays out what it reads: a component stands around its parts, and the parts stand one
behind the other. A term in parentheses and an operation are given new ranges after their parts have
been read. The result is `Program.origins_form_tree`.
-/

set_option autoImplicit false

namespace SoftRules

open SoftRules.Parser SoftRules.Grammar

namespace Component

variable {text : List Char} {start stop : Cursor}

/-- A term that was read can be given the range of everything that was read with it. -/
theorem Laid.relocate {found : Term} (laid : Laid text start stop (.term found))
    (further : start.offset < stop.offset) :
    Laid text start stop (.term (found.relocate (some (start.to stop)))) := by
  cases found with
  | var x =>
      have isVar : Laid text start stop (.var { x with origin := some (start.to stop) }) :=
        Row.close (.nil laid.forward) rfl further
      exact isVar.wrap rfl rfl
  | symbol value _ => exact Row.close (.nil laid.forward) rfl further
  | function name arguments _ =>
      cases laid.inOrder _ (.refl _) with
      | kept ordered =>
          exact .of_parts laid.forward (fun _ => laid.part) (.inr ⟨rfl, further⟩) (.kept ordered)
  | operation operator operands _ =>
      cases laid.inOrder _ (.refl _) with
      | kept ordered =>
          exact .of_parts laid.forward (fun _ => laid.part) (.inr ⟨rfl, further⟩) (.kept ordered)

end Component

namespace Grammar

open Component

variable {text : List Char}

/-! Terms. -/

theorem lays_relocated {parser : Parser Term} (consumes : (located parser).Consumes)
    (lays : Lays text [] parser fun found => [.term found]) :
    Lays text [] (located parser) fun found => [.term found] := by
  refine .of_answers fun cursor value next accepted => ?_
  have further := Cursor.offset_lt_of_length_lt (le_of_read accepted) (consumes _ _ _ accepted)
  obtain ⟨found, isRead, rfl⟩ := located_accepts.mp accepted
  exact (lays.answers cursor found next isRead).relocate further

theorem lays_variableName : Lays text [] variableName fun found => [.var found] := by
  refine .located (.located (.explain _ (.bind (consumes_name _)))) (fun _ => ?_) fun _ _ => rfl
  exact .expecting _ (.past fun _ => .pure rfl)

section Terms

variable {term : Parser Term} (each : Lays text [] term fun found => [.term found])

include each

theorem lays_arguments : Lays text [] (arguments term) fun found => found.1.map .term :=
  .past fun _ => .past fun _ => .next each.separated fun _ => .past fun _ => .past fun _ =>
    .past fun _ => .pure rfl

theorem lays_optional_arguments : Lays text [] (optional (arguments term))
    fun found => ((found.map Prod.fst).getD []).map .term :=
  .optional (lays_arguments each) (.pure rfl)

theorem lays_functionTerm : Lays text [] (functionTerm term) fun found => [.term found] := by
  refine lays_relocated (.located (.bind (consumes_name _))) ?_
  exact .past fun _ => .next (lays_optional_arguments each) fun _ => .gather rfl rfl

theorem lays_tuple : Lays text [] (tuple term) fun found => [.term found] := by
  refine .bind (lays_arguments each) ?_
  intro found
  split
  · exact .pure rfl
  · exact .gather rfl rfl

theorem lays_primary : Lays text [] (primary term) fun found => [.term found] := by
  refine lays_relocated (consumes_primary term) (.firstOf ⟨?_, ?_, ?_, ?_⟩)
  · exact .next lays_variableName fun _ => .wrap rfl rfl
  · exact .past fun _ => .gather rfl rfl
  · exact lays_functionTerm each
  · exact lays_tuple each

end Terms

section Operations

variable {family : Nat → Parser Term}
  (each : ∀ strength, Lays text [] (family strength) fun found => [.term found])

include each

theorem lays_operand : Lays text [] (operand family) fun found => [.term found] := by
  refine .firstOf ⟨?_, ?_, ?_⟩
  · exact lays_relocated (.located (.bind consumes_integer)) (.past fun _ => .gather rfl rfl)
  · refine lays_relocated (.located (.bind (consumes_char _))) ?_
    exact .past fun _ => .past fun _ => .next (each _) fun _ => .gather rfl rfl
  · exact lays_primary (.expecting _ (each 0))

/-- A right operand, and where it ends. -/
def IsOperand (text : List Char) (cursor : Cursor) (found : Operator × Term × Nat)
    (next : Cursor) : Prop :=
  Laid text cursor next (.term found.2.1) ∧ found.2.2 = next.offset

theorem answers_continuation_operand (strength : Nat) (cursor : Cursor) :
    (continuation family strength).Answers cursor fun found next =>
      ∀ value, found = some value → IsOperand text cursor value next := by
  refine .bind (answers_forward _ cursor) ?_
  intro found middle before
  cases found with
  | none => exact .pure (by simp)
  | some operator =>
      simp only
      split
      · exact .pure (by simp)
      · refine .bind (answers_forward _ middle) fun _ start behind => ?_
        refine .bind ((each _).answers start) fun right next laid => ?_
        refine .offset (.pure ?_)
        rintro _ ⟨⟩
        exact ⟨laid.widen (Cursor.le_trans before behind) (Cursor.le_refl _), rfl⟩

omit each in
/-- Operators of one strength apply from left to right; each operation starts where the first
operand does. -/
theorem laid_operations {start cursor last : Cursor} {others : List (Operator × Term × Nat)}
    {combine : Term → Operator × Term × Nat → Term}
    (combines : ∀ left operator right stop, combine left (operator, right, stop) =
      .operation operator [left, right] (some ⟨start.offset, stop⟩))
    (chain : Chain (IsOperand text) cursor others last) :
    ∀ left, Laid text start cursor (.term left) → start.offset < cursor.offset →
      Laid text start last (.term (others.foldl combine left)) := by
  induction chain with
  | nil _ => exact fun left laid _ => laid
  | @cons cursor next _ found _ isOperand _ _ inductionHypothesis =>
      obtain ⟨operator, right, stop⟩ := found
      obtain ⟨laidRight, rfl⟩ := isOperand
      intro left laidLeft further
      have furtherStill : start.offset < next.offset :=
        Nat.lt_of_lt_of_le further (Cursor.offset_le laidRight.forward)
      have row : Row text start next [.term left, .term right] :=
        .cons (Cursor.le_refl _) laidLeft (.single laidRight)
      rw [List.foldl_cons, combines]
      exact inductionHypothesis _ (Row.close row rfl furtherStill) furtherStill

theorem lays_operationStep (strength : Nat) :
    Lays text [] (operationStep family strength) fun found => [.term found] := by
  refine .of_answers fun cursor => .offset ?_
  have further : (operand family).Answers cursor fun _ next => cursor.offset < next.offset :=
    fun _ _ accepted => Cursor.offset_lt_of_length_lt (le_of_read accepted)
      (consumes_operand family _ _ _ accepted)
  refine .bind (((lays_operand each).answers cursor).and further) ?_
  rintro first next ⟨laid, isFurther⟩
  refine .bind (answers_rounds_chain (answers_continuation_operand each strength) next) ?_
  intro others last chain
  exact .pure (laid_operations (fun _ _ _ _ => rfl) chain first laid isFurther)

end Operations

theorem lays_operation (strength : Nat) :
    Lays text [] (operation strength) fun found => [.term found] := by
  refine .of_answers fun cursor => ?_
  unfold operation
  refine answers_fix_between (fun cursor found next => Laid text cursor next (.term found)) ?_
    strength cursor
  intro family each strength
  exact (lays_operationStep (fun strength => .of_answers (each strength)) strength).answers

theorem lays_term : Lays text [] term fun found => [.term found] :=
  .expecting _ (lays_operation 0)

/-! Atoms. -/

theorem lays_boolean : Lays text [] boolean fun found => [.atom found] := by
  refine .located consumes_boolean (fun _ => ?_) fun _ value => by cases value <;> rfl
  exact .firstOf ⟨.past fun _ => .pure rfl, .past fun _ => .pure rfl⟩

theorem lays_comparison : Lays text [] comparison fun found => [.atom found] := by
  refine .located consumes_comparison (fun _ => ?_) fun _ value => by cases value <;> rfl
  exact .next lays_term fun _ => .past fun _ => .past fun _ => .past fun _ =>
    .next lays_term fun _ => .pure rfl

theorem lays_predicate : Lays text [] predicate fun found => [.atom found] := by
  refine .located consumes_predicate (fun _ => ?_) fun _ value => by cases value <;> rfl
  refine .past fun negation => .next (lays_functionTerm lays_term) fun function => ?_
  cases negation with
  | none => exact .pure rfl
  | some _ =>
      -- The classical negation has no range of its own.
      intro start cursor row
      have negated : Laid text start cursor (.term (.negate function)) := Row.gather row rfl
      exact .pure (.single negated)

theorem lays_leadingGuard : Lays text [] leadingGuard ofGuard := by
  have guard : Lays text [] leftGuard fun found => [.term found.term] :=
    .next lays_term fun _ => .past fun _ => .pure rfl
  exact .optional (.next guard fun _ => .past fun _ => .pure rfl) (.pure rfl)

theorem lays_trailingGuard : Lays text [] trailingGuard ofGuard := by
  have guard : Lays text [] rightGuard fun found => [.term found.term] :=
    .past fun _ => .next lays_term fun _ => .pure rfl
  exact .optional (.past fun _ => guard) (.pure rfl)

section Literals

variable {literal : Parser Literal} (consumes : literal.Consumes)
  (each : Lays text [] literal fun found => [.literal found])

include each

theorem lays_condition : Lays text [] (condition literal) fun found => found.map .literal := by
  have found : Lays text [] (optional do
      spacedToken ":"
      separated1 (spacedToken ",") literal) fun found => (found.getD []).map .literal :=
    .optional (.past fun _ => each.separated1) (.pure rfl)
  exact .bind found fun _ => .pure rfl

theorem lays_element : Lays text [] (element literal) fun found => [.element found] :=
  .next lays_term.separated1 fun _ => .next (lays_condition each) fun _ => .gather rfl rfl

include consumes

theorem lays_conditional :
    Lays text [] (conditional literal) fun found => [.conditional found] := by
  refine .located (.located (.bind consumes)) (fun _ => ?_) fun _ _ => rfl
  exact .next each fun _ => .next (lays_condition each) fun _ => .pure rfl

theorem lays_aggregate : Lays text [] (aggregate literal) fun found => [.aggregate found] := by
  refine .located (consumes_aggregate literal) (fun _ => ?_) fun _ _ => rfl
  exact .next lays_leadingGuard fun _ => .next (lays_conditional consumes each).separated.braced
    fun _ => .next lays_trailingGuard fun _ => .pure rfl

omit consumes in
theorem lays_bodyAggregate :
    Lays text [] (bodyAggregate literal) fun found => [.bodyAggregate found] := by
  refine .located (consumes_bodyAggregate literal) (fun _ => ?_) fun _ _ => rfl
  exact .next lays_leadingGuard fun _ => .past fun _ => .past fun _ =>
    .next (lays_element each).separated.braced fun _ => .next lays_trailingGuard fun _ => .pure rfl

theorem lays_atom : Lays text [] (atom literal) fun found => [.atom found] := by
  refine .expecting _ (.firstOf ⟨lays_boolean, ?_, ?_, lays_comparison, lays_predicate⟩)
  · exact .next (lays_aggregate consumes each) fun _ => .wrap rfl rfl
  · exact .next (lays_bodyAggregate each) fun _ => .wrap rfl rfl

theorem lays_literalStep :
    Lays text [] (literalStep literal) fun found => [.literal found] := by
  refine .located (consumes_literalStep literal) (fun _ => ?_) fun _ _ => rfl
  exact .expecting _ (.past fun _ => .next (lays_atom consumes each) fun _ => .pure rfl)

end Literals

/-- The productions of literals come back to literals that read at least one character. -/
theorem lays_literal : Lays text [] literal fun found => [.literal found] := by
  have recursion (cursor : Cursor) : literal.Answers cursor fun found next =>
      next.rest.length < cursor.rest.length ∧ Laid text cursor next (.literal found) := by
    unfold literal
    refine answers_fix_between (fun cursor found next =>
      next.rest.length < cursor.rest.length ∧ Laid text cursor next (.literal found)) ?_ () cursor
    intro family each _ cursor
    have consumes : (family ()).Consumes :=
      fun cursor _ _ accepted => (each () cursor _ _ accepted).1
    have lays : Lays text [] (family ()) fun found => [.literal found] :=
      .of_answers fun cursor => (each () cursor).imp fun _ _ found => found.2
    have shorter : (literalStep (family ())).Answers cursor fun _ next =>
        next.rest.length < cursor.rest.length := consumes_literalStep (family ()) cursor
    exact shorter.and ((lays_literalStep consumes lays).answers cursor)
  exact .of_answers fun cursor => (recursion cursor).imp fun _ _ found => found.2

/-! Heads and bodies. -/

theorem lays_theoryAtom : Lays text [] theoryAtom fun found => [.theoryAtom found] := by
  have elements : Lays text [] (optional do
      space
      braced (separated (spacedToken ";") (element literal)))
      fun found => (found.getD []).map .element :=
    .optional (.past fun _ => (lays_element lays_literal).separated.braced) (.pure rfl)
  have guard : Lays text [] (optional do
      space
      let relation ← relation
      space
      return { relation, term := ← term : Guard }) ofGuard :=
    .optional (.past fun _ => .past fun _ => .past fun _ => .next lays_term fun _ => .pure rfl)
      (.pure rfl)
  refine .located (.located (.explain _ (.bind (consumes_char _)))) (fun _ => ?_) fun _ _ => rfl
  exact .expecting _ (.past fun _ => .past fun _ => .next (lays_optional_arguments lays_term)
    fun _ => .next elements fun _ => .next guard fun _ => .pure rfl)

theorem lays_head : Lays text [] head fun found => [.head found] := by
  refine .expecting _ (.firstOf ⟨?_, ?_, ?_⟩)
  · exact .next lays_theoryAtom fun _ => .wrap rfl rfl
  · exact .next (lays_aggregate consumes_literal lays_literal) fun _ => .wrap rfl rfl
  · exact .next lays_literal fun _ => .wrap rfl rfl

theorem lays_bodyElement : Lays text [] bodyElement fun found => [.bodyElement found] := by
  refine .expecting _ (.firstOf ⟨.next lays_theoryAtom fun _ => .wrap rfl rfl, ?_⟩)
  refine .next (lays_conditional consumes_literal lays_literal) fun element => ?_
  split
  · -- Without a condition, only the literal is kept.
    intro start cursor row
    have content : Laid text start cursor (.literal element.literal) :=
      row.laid_of_single.part (List.mem_cons_self ..)
    exact .pure (.single (content.wrap rfl rfl))
  · exact .wrap rfl rfl

theorem lays_body : Lays text [] body fun found => found.map .bodyElement :=
  lays_bodyElement.separated1

/-- The head of a constraint is not written; it can stand anywhere. -/
theorem laid_headless {start stop : Cursor} (forward : start ≤ stop) :
    Laid text start stop (.head (.literal (.boolean false))) := by
  have isAtom : Laid text start stop (.atom (.boolean false)) := Row.gather (.nil forward) rfl
  have isLiteral : Laid text start stop (.literal (.boolean false)) :=
    Row.gather (.single isAtom) rfl
  exact isLiteral.wrap rfl rfl

theorem lays_headAndBody :
    Lays text [] headAndBody fun found => .head found.1 :: found.2.map .bodyElement := by
  refine .firstOf ⟨?_, ?_⟩
  · have headless : Lays text [] (token ":-") fun _ => [.head (.literal (.boolean false))] :=
      .of_answers fun cursor => (answers_forward _ cursor).imp fun _ _ => laid_headless
    exact .next headless fun _ => .past fun _ => .next lays_body.commit fun _ => .pure rfl
  · have behind : Lays text [] (optional do spacedToken ":-"; commit body)
        fun found => (found.getD []).map .bodyElement :=
      .optional (.past fun _ => lays_body.commit) (.pure rfl)
    exact .next lays_head fun _ => .next behind fun _ => .pure rfl

/-! Statements. -/

theorem lays_directive : Lays text [] directive fun found => [.directive found] := by
  have period : (token ".").Consumes := consumes_token (by decide)
  refine .located (.located (.explain _ (.after fun _ => .bind period))) (fun _ => ?_)
    fun _ _ => rfl
  exact .expecting _ (.past fun _ => .past fun _ => .pure rfl)

theorem lays_weakConstraint :
    Lays text [] weakConstraint fun found => [.weakConstraint found] := by
  have arrow : (token ":~").Consumes := consumes_token (by decide)
  -- A priority that is not written has no range.
  have priority : Lays text [] (optional do spacedToken "@"; term)
      fun found => [.term (found.getD (.number 0))] :=
    .optional (.past fun _ => lays_term) (.gather rfl rfl)
  have terms : Lays text [] (many do spacedToken ","; term) fun found => found.map .term :=
    Lays.many (.past fun _ => lays_term)
  refine .located (.located (.explain _ (.bind arrow))) (fun _ => ?_) fun _ _ => rfl
  refine .expecting _ (.past fun _ => .past fun _ => .commit (.next lays_body fun _ => ?_))
  refine .past fun _ => .past fun _ => .past fun _ => .next lays_term fun _ => ?_
  refine .next priority fun _ => .next terms fun _ => .past fun _ => .past fun _ => .pure ?_
  simp [Component.parts, Located.relocate]

theorem laid_weightTerm {start stop : Cursor} (forward : start ≤ stop) (numeral : List Char) :
    Laid text start stop (.term (weightTerm numeral)) := by
  unfold weightTerm
  split
  · split
    · exact Row.gather (.nil forward) rfl
    · exact Row.gather (.nil forward) rfl
  · exact Row.gather (.nil forward) rfl

section Rules

variable {cursor : Cursor} (reached : Cursor.start text ≤ cursor)

include reached

/-- A weight in front of a rule, up to its colon. -/
theorem answers_weight_laid : weight.Answers cursor fun found next =>
    (∃ middle, found = weightAt text ⟨cursor.offset, middle⟩) ∧
      Laid text cursor next (.theoryAtom found) := by
  have number : Lays text [] weightNumber fun numeral => [.term (weightTerm numeral)] :=
    .of_answers fun cursor => (answers_forward _ cursor).imp fun numeral _ forward =>
      laid_weightTerm forward numeral
  have consumes : weightNumber.Consumes :=
    .after fun _ => .after fun _ => .bind (.after fun _ => .bind (consumes_takeWhile1 _ _))
  have laid : Lays text [] (located do
      return { name := "weight", arguments := [weightTerm (← weightNumber)] : TheoryAtom })
      fun found => [.theoryAtom found] :=
    .located (.located (.bind consumes)) (fun _ => .next number fun _ => .pure rfl) fun _ _ => rfl
  have numeral : weightNumber.Answers cursor fun found next =>
      found = Source.slice text (cursor.to next) := by
    refine .consumed ?_
    intro _ next accepted numeral isText
    have isSlice := isText.symm.trans (Cursor.rest_eq_slice reached (le_of_read accepted))
    exact List.append_cancel_right isSlice
  have shape : (located do
      return { name := "weight", arguments := [weightTerm (← weightNumber)] : TheoryAtom }).Answers
      cursor fun found next => found = weightAt text (cursor.to next) := by
    refine .located_to (.bind numeral ?_)
    rintro _ next rfl
    exact .pure rfl
  refine .expecting _ (.bind (shape.and (laid.answers cursor)) ?_)
  rintro found middle ⟨isFound, foundLaid⟩
  refine .bind (answers_forward _ middle) fun _ _ first => ?_
  refine .bind (answers_forward _ _) fun _ _ second => ?_
  refine .bind (answers_forward _ _) fun _ _ third => .pure ⟨⟨_, isFound⟩, ?_⟩
  exact foundLaid.widen (Cursor.le_refl _) (Cursor.le_trans first (Cursor.le_trans second third))

theorem answers_prefix_laid : (optional do
      let weight ← weight
      space
      return weight).Answers cursor fun found next =>
    (∀ weight, found = some weight → ∃ middle, weight = weightAt text ⟨cursor.offset, middle⟩) ∧
      Row text cursor next (found.toList.map fun weight => .bodyElement (.theory weight)) := by
  refine .optional (.bind (answers_weight_laid reached) ?_) fun _ => ?_
  · rintro weight middle ⟨isWeight, laid⟩
    have element : Laid text cursor middle (.bodyElement (.theory weight)) := laid.wrap rfl rfl
    refine .bind (answers_forward _ middle) fun _ next forward => .pure ⟨?_, ?_⟩
    · rintro _ ⟨⟩
      exact isWeight
    · exact .single (element.widen (Cursor.le_refl _) forward)
  · exact ⟨by simp, .nil (Cursor.le_refl _)⟩

/-- Without a weight in front of it, a rule keeps its parts in their order. -/
theorem answers_rule_laid :
    rule.Answers cursor fun found next => Laid text cursor next (.rule found) := by
  have period : (token ".").Consumes := consumes_token (by decide)
  refine .located_to (.expecting _ (.bind (answers_prefix_laid reached) ?_))
  rintro weight start ⟨isWeight, front⟩
  refine .bind (lays_headAndBody.frame cursor start front) ?_
  rintro ⟨head, body⟩ middle parts
  refine .bind (answers_forward _ middle) fun _ stop behind => ?_
  refine .bind (answers_read _ stop) fun _ next accepted => .pure ?_
  have row := parts.append (.nil (Cursor.le_trans behind (le_of_read accepted)))
  rw [List.append_nil] at row
  have further : cursor.offset < next.offset := by
    have before := Cursor.offset_le (Cursor.le_trans parts.forward behind)
    have shorter := period _ _ _ accepted
    exact Nat.lt_of_le_of_lt before (Cursor.offset_lt_of_length_lt (le_of_read accepted) shorter)
  cases weight with
  | none =>
      refine Row.close ?_ rfl further
      simpa [Component.parts, Located.relocate] using row
  | some weight =>
      obtain ⟨stop, rfl⟩ := isWeight weight rfl
      refine .of_parts row.forward (fun part isPart => row.laid part ?_) (.inr ⟨rfl, further⟩)
        (.weighted rfl rfl row.ordered)
      simp only [Component.parts, Located.relocate, Option.map_some, Option.toList_some,
        List.map_append, List.map_cons, List.map_nil, List.mem_cons, List.mem_append,
        List.not_mem_nil, or_false, List.cons_append, List.nil_append] at isPart ⊢
      tauto

end Rules

theorem answers_statement_laid {cursor : Cursor} (reached : Cursor.start text ≤ cursor) :
    statement.Answers cursor fun found next => Laid text cursor next (.statement found) := by
  have directives := (@lays_directive text).answers cursor
  have constraints := (@lays_weakConstraint text).answers cursor
  refine .expecting _ (.firstOf ⟨.bind directives ?_, fun _ => ⟨.bind constraints ?_, fun _ =>
    ⟨.bind (answers_rule_laid reached) ?_, fun _ => trivial⟩⟩⟩)
  all_goals exact fun _ _ laid => .pure (laid.wrap rfl rfl)

theorem Passage.row {cursor last : Cursor} {program : Program}
    (passage : Passage cursor program last) (reached : Cursor.start text ≤ cursor) :
    Row text cursor last (program.map .statement) := by
  induction passage with
  | finish spaced => exact .nil (le_of_read spaced)
  | step spaced accepted _ inductionHypothesis =>
      have started := Cursor.le_trans reached (le_of_read spaced)
      have passed := Cursor.le_trans started (le_of_read accepted)
      have laid := answers_statement_laid started _ _ accepted
      exact .cons (le_of_read spaced) laid (inductionHypothesis passed)

end Grammar

/-- A range of at least one character of a text. -/
structure Span.IsRangeOf (text : List Char) (span : Span) : Prop where
  nonempty : span.start < span.stop
  inText : span.stop ≤ Source.byteLength text
  startBoundary : Source.IsBoundary text span.start
  stopBoundary : Source.IsBoundary text span.stop

theorem Span.IsRead.isRangeOf {text : List Char} {last : Cursor} {span : Span}
    (isRead : span.IsRead (.start text) last) : span.IsRangeOf text := by
  obtain ⟨first, stop, reached, forward, -, further, rfl⟩ := isRead
  have passed := Cursor.le_trans reached forward
  obtain ⟨before, isText, isOffset⟩ := Cursor.text_of_start_le passed
  refine ⟨further, ?_, Cursor.isBoundary_of_start_le reached, Cursor.isBoundary_of_start_le passed⟩
  rw [isText, Source.byteLength_append, isOffset]
  exact Nat.le_add_right _ _

/-- The ranges in an accepted program form a tree over its text. The ranges of its statements stand
one behind the other. Each component at any depth has a range of characters of the text, if it has
one at all; the ranges of its descendants lie in it; and the ranges of its parts stand one behind
the other, except for a weight in front of a rule. -/
theorem Program.origins_form_tree {text : List Char} {program : Program}
    (parsed : Program.parse text = .ok program) :
    (program.map Component.statement).Pairwise Component.Before ∧
      ∀ statement ∈ program, ∀ component, Component.Within component (.statement statement) →
        (∀ span, component.origin = some span → span.IsRangeOf text) ∧
          component.Encloses ∧ component.InOrder text := by
  obtain ⟨last, passage, -⟩ := passage_of_parse parsed
  have row := passage.row (Cursor.le_refl (.start text))
  refine ⟨row.ordered, fun statement member component below => ?_⟩
  have laid := row.laid (.statement statement) (List.mem_map_of_mem member)
  refine ⟨fun span isOrigin => ?_, laid.encloses component below, laid.inOrder component below⟩
  exact (laid.ranges component below span isOrigin).isRangeOf

/-- The ranges that a traversal of the statement meets. -/
def Statement.ranges (statement : Statement) : List Span :=
  let replace : Variable → Except Unit Variable := .ok
  ((statement.trace replace).2.filterMap Component.origin).eraseDups

/-- A rule with a weight and with parentheses, and a constraint without a priority. -/
def Program.nested : List Char := "2 : p(\"é\",(X+1)*Y) :- -q : r. :~ s. [1]".toList

theorem Program.origins_form_tree_nested :
    ∃ program, Program.parse Program.nested = .ok program ∧
      program.map Statement.ranges =
        [[⟨0, 30⟩, ⟨4, 19⟩, ⟨6, 10⟩, ⟨11, 18⟩, ⟨11, 16⟩, ⟨12, 13⟩, ⟨14, 15⟩, ⟨17, 18⟩, ⟨23, 29⟩,
          ⟨23, 25⟩, ⟨24, 25⟩, ⟨28, 29⟩, ⟨0, 1⟩], [⟨31, 40⟩, ⟨38, 39⟩, ⟨34, 35⟩]] ∧
      (program.map Component.statement).Pairwise Component.Before ∧
      ∀ statement ∈ program, ∀ component, Component.Within component (.statement statement) →
        (∀ span, component.origin = some span → span.IsRangeOf Program.nested) ∧
          component.Encloses ∧ component.InOrder Program.nested := by
  have found : ((Program.parse Program.nested).toOption.getD []).map Statement.ranges =
      [[⟨0, 30⟩, ⟨4, 19⟩, ⟨6, 10⟩, ⟨11, 18⟩, ⟨11, 16⟩, ⟨12, 13⟩, ⟨14, 15⟩, ⟨17, 18⟩, ⟨23, 29⟩,
        ⟨23, 25⟩, ⟨24, 25⟩, ⟨28, 29⟩, ⟨0, 1⟩], [⟨31, 40⟩, ⟨38, 39⟩, ⟨34, 35⟩]] := by
    decide +kernel
  cases parsed : Program.parse Program.nested with
  | error error =>
      rw [parsed] at found
      cases found
  | ok program =>
      rw [parsed] at found
      exact ⟨program, rfl, found, Program.origins_form_tree parsed⟩

end SoftRules
