import SoftRules.Grammar.Statement
import SoftRules.Proofs.Grammar.Pieces

/-!
The productions span pieces. A rule ends at a period and a weak constraint at a bracket that does
not belong to its pieces.
-/

set_option autoImplicit false

namespace SoftRules.Grammar

open SoftRules.Parser

/-! Classes of characters. -/

theorem isPlain_of_ne {accepts : Char → Bool} (refused : ['"', '%', '.', '(', ')', '\x7b', '\x7d',
    ']'].all (fun character => !accepts character) = true) (character : Char)
    (accepted : accepts character = true) : isPlain character = true := by
  simp only [isPlain, Bool.not_eq_true', List.contains_eq_mem, decide_eq_false_iff_not]
  intro member
  have isRefused := List.all_eq_true.mp refused character member
  rw [accepted] at isRefused
  cases isRefused

theorem spans_spaceItem : Spans spaceItem := by
  intro cursor
  refine .firstOf ⟨?_, fun _ => ⟨?_, fun _ => trivial⟩⟩
  · exact Spans.bind (spans_takeWhile1 (isPlain_of_ne (by decide)) _) (fun _ => spans_pure _) cursor
  · refine (answers_comment cursor).imp ?_
    rintro _ next ⟨text, isText, steady⟩
    rw [isText]
    exact .comment steady (.nil _)

theorem spans_space : Spans space := .bind spans_spaceItem.many fun _ => spans_pure _

theorem spans_space1 : Spans space1 :=
  .bind (.bind (spans_spaceItem.explain _) fun _ => .bind spans_spaceItem.many fun _ =>
    spans_pure _) fun _ => spans_pure _

theorem spans_spacedToken {spelling : String} (plain : spelling.toList.all isPlain = true) :
    Spans (spacedToken spelling) :=
  .expecting _ (.bind spans_space fun _ => .bind (spans_word plain) fun _ => spans_space)

theorem Spans.braced {α : Type} {content : Parser α} (spans : Spans content) :
    Spans (Grammar.braced content) := by
  intro cursor
  refine .bind (answers_char cursor _) fun _ opened opens => ?_
  refine .bind (spans_space opened) fun _ _ before => ?_
  refine .bind (spans _) fun _ _ inside => ?_
  refine .bind (spans_space _) fun _ closed behind => ?_
  refine .bind (answers_char closed _) fun _ next closes => .pure ?_
  rw [closes] at behind
  rw [opens]
  exact .braces (before.trans (inside.trans behind)) (.nil _)

/-! Terms. -/

theorem spans_digits : Spans digits := spans_takeWhile1 (isPlain_of_ne (by decide)) _

theorem spans_name {isFirst : Char → Bool}
    (refused : ['"', '%', '.', '(', ')', '\x7b', '\x7d', ']'].all (!isFirst ·) = true) :
    Spans (name isFirst) :=
  .bind (spans_satisfy (isPlain_of_ne refused) _) fun _ =>
    .bind (spans_takeWhile (isPlain_of_ne (by decide))) fun _ => spans_pure _

theorem spans_quotedText : Spans quotedText := by
  intro cursor
  refine (answers_quotedText cursor).imp ?_
  rintro _ next ⟨text, isText, steady⟩
  rw [isText]
  exact .quoted steady (.nil _)

section Terms

variable {term : Parser Term} (spans : Spans term)

include spans

theorem spans_arguments : Spans (arguments term) := by
  intro cursor
  refine .bind (answers_char cursor _) fun _ opened opens => ?_
  refine .bind (spans_space opened) fun _ _ before => ?_
  refine .bind ((spans_spacedToken (by decide)).separated spans _) fun _ _ inside => ?_
  have comma : Spans (do space; char ',') := .bind spans_space fun _ => spans_char (by decide)
  refine .bind (comma.optional _) fun _ _ last => ?_
  refine .bind (spans_space _) fun _ closed behind => ?_
  refine .bind (answers_char closed _) fun _ next closes => .pure ?_
  rw [closes] at behind
  rw [opens]
  exact .parentheses (before.trans (inside.trans (last.trans behind))) (.nil _)

theorem spans_functionTerm : Spans (functionTerm term) :=
  .located (.bind (spans_name (by decide)) fun _ => .bind (spans_arguments spans).optional
    fun _ => spans_pure _)

theorem spans_primary : Spans (primary term) := by
  refine .located (spans_firstOf ⟨?_, ?_, ?_, ?_⟩)
  · exact .bind (.located (.expecting _ (.bind (spans_name (by decide)) fun _ => spans_pure _)))
      fun _ => spans_pure _
  · exact .bind spans_quotedText fun _ => spans_pure _
  · exact spans_functionTerm spans
  · refine .bind (spans_arguments spans) fun found => ?_
    split
    · exact spans_pure _
    · exact spans_pure _

end Terms

theorem spans_infixOperator : Spans infixOperator := by
  refine .bind spans_space fun _ => spans_firstOf (List.forall_iff_forall_mem.mpr ?_)
  intro parser member
  obtain ⟨operator, -, rfl⟩ := List.mem_map.mp member
  refine .bind ?_ fun _ => spans_pure _
  cases operator with
  | interval =>
      intro cursor
      refine (answers_word cursor _).imp fun _ next found => ?_
      rw [found]
      exact .interval (.nil _)
  | _ => exact spans_word (by decide)

section Operations

variable {operation : Nat → Parser Term} (spans : ∀ strength, Spans (operation strength))

include spans

theorem spans_operand : Spans (operand operation) := by
  refine spans_firstOf ⟨?_, ?_, ?_⟩
  · have number : Spans integer :=
      .convert (.bind (spans_char (by decide)).optional fun _ => .bind spans_digits fun _ =>
        spans_pure _)
    exact .located (.bind number fun _ => spans_pure _)
  · exact .located (.bind (spans_char (by decide)) fun _ => .bind spans_space fun _ =>
      .bind (spans _) fun _ => spans_pure _)
  · exact spans_primary ((spans 0).expecting _)

theorem spans_continuation (strength : Nat) : Spans (continuation operation strength) := by
  refine .bind spans_infixOperator.optional fun found => ?_
  cases found with
  | none => exact spans_pure _
  | some operator =>
      simp only
      split
      · exact spans_pure _
      · refine .bind spans_space fun _ => .bind (spans _) fun _ => ?_
        intro cursor
        exact .offset (.pure (.nil _))

end Operations

theorem spans_operation (strength : Nat) : Spans (operation strength) := by
  refine spans_fix ?_ strength
  intro family spans strength cursor
  refine .offset ?_
  exact Spans.bind (spans_operand spans) (fun _ => .bind (spans_continuation spans strength).rounds
    fun _ => spans_pure _) cursor

theorem spans_term : Spans term := (spans_operation 0).expecting _

/-! Literals. -/

theorem spans_relation : Spans relation := by
  refine .expecting _ (spans_firstOf ⟨?_, ?_, ?_, ?_, ?_, ?_, ?_⟩)
  all_goals exact .bind (spans_word (by decide)) fun _ => spans_pure _

theorem spans_boolean : Spans boolean := by
  refine .located (spans_firstOf ⟨?_, ?_⟩)
  all_goals exact .bind (spans_word (by decide)) fun _ => spans_pure _

theorem spans_comparison : Spans comparison :=
  .located (.bind spans_term fun _ => .bind spans_space fun _ => .bind spans_relation fun _ =>
    .bind spans_space fun _ => .bind spans_term fun _ => spans_pure _)

theorem spans_predicate : Spans predicate := by
  have minus : Spans (do char '-'; space) := .bind (spans_char (by decide)) fun _ => spans_space
  exact .located (.bind minus.optional fun _ => .bind (spans_functionTerm spans_term) fun _ =>
    spans_pure _)

theorem spans_leadingGuard : Spans leadingGuard := by
  have behind : Spans (do space; relation) := .bind spans_space fun _ => spans_relation
  have guard : Spans leftGuard := .bind spans_term fun _ => .bind behind.optional fun _ =>
    spans_pure _
  exact .optional (.bind guard fun _ => .bind spans_space fun _ => spans_pure _)

theorem spans_trailingGuard : Spans trailingGuard := by
  have inFront : Spans (do let relation ← relation; space; return relation) :=
    .bind spans_relation fun _ => .bind spans_space fun _ => spans_pure _
  have guard : Spans rightGuard := .bind inFront.optional fun _ => .bind spans_term fun _ =>
    spans_pure _
  exact .optional (.bind spans_space fun _ => guard)

theorem spans_aggregateFunction : Spans aggregateFunction :=
  .convert (.consumed (.bind (spans_char (by decide)) fun _ =>
    .bind (spans_takeWhile1 (isPlain_of_ne (by decide)) _) fun _ =>
      .bind (spans_char (by decide)).optional fun _ => spans_pure _))

section Literals

variable {literal : Parser Literal} (spans : Spans literal)

include spans

theorem spans_condition : Spans (condition literal) := by
  have comma : Spans (spacedToken ",") := spans_spacedToken (by decide)
  have literals : Spans (do spacedToken ":"; separated1 (spacedToken ",") literal) :=
    .bind (spans_spacedToken (by decide)) fun _ => comma.separated1 spans
  exact .bind literals.optional fun _ => spans_pure _

theorem spans_conditional : Spans (conditional literal) :=
  .located (.bind spans fun _ => .bind (spans_condition spans) fun _ => spans_pure _)

theorem spans_element : Spans (element literal) :=
  .bind ((spans_spacedToken (by decide)).separated1 spans_term) fun _ =>
    .bind (spans_condition spans) fun _ => spans_pure _

theorem spans_elements : Spans (braced (separated (spacedToken ";") (element literal))) :=
  .braced ((spans_spacedToken (by decide)).separated (spans_element spans))

theorem spans_aggregate : Spans (aggregate literal) := by
  have elements : Spans (braced (separated (spacedToken ";") (conditional literal))) :=
    .braced ((spans_spacedToken (by decide)).separated (spans_conditional spans))
  exact .located (.bind spans_leadingGuard fun _ => .bind elements fun _ =>
    .bind spans_trailingGuard fun _ => spans_pure _)

theorem spans_bodyAggregate : Spans (bodyAggregate literal) :=
  .located (.bind spans_leadingGuard fun _ => .bind spans_aggregateFunction fun _ =>
    .bind spans_space fun _ => .bind (spans_elements spans) fun _ =>
      .bind spans_trailingGuard fun _ => spans_pure _)

theorem spans_atom : Spans (atom literal) := by
  refine .expecting _ (spans_firstOf ⟨spans_boolean, ?_, ?_, spans_comparison, spans_predicate⟩)
  · exact .bind (spans_aggregate spans) fun _ => spans_pure _
  · exact .bind (spans_bodyAggregate spans) fun _ => spans_pure _

end Literals

theorem spans_sign : Spans sign := by
  have negation : Spans negation := .bind (spans_word (by decide)) fun _ => spans_space1
  refine spans_firstOf ⟨?_, ?_, spans_pure _⟩
  · exact .bind negation fun _ => .bind negation fun _ => spans_pure _
  · exact .bind negation fun _ => spans_pure _

theorem spans_literal : Spans literal := by
  refine spans_fix ?_ ()
  intro family spans _
  exact .located (.expecting _ (.bind spans_sign fun _ => .bind (spans_atom (spans ())) fun _ =>
    spans_pure _))

/-! Statements. -/

theorem spans_theoryAtom : Spans theoryAtom := by
  have elements : Spans (do space; braced (separated (spacedToken ";") (element literal))) :=
    .bind spans_space fun _ => spans_elements spans_literal
  have guard : Spans (do
      space
      let relation ← relation
      space
      return { relation, term := ← term } : Parser Guard) :=
    .bind spans_space fun _ => .bind spans_relation fun _ => .bind spans_space fun _ =>
      .bind spans_term fun _ => spans_pure _
  exact .located (.expecting _ (.bind (spans_char (by decide)) fun _ =>
    .bind (spans_name (by decide)) fun _ => .bind (spans_arguments spans_term).optional fun _ =>
      .bind elements.optional fun _ => .bind guard.optional fun _ => spans_pure _))

theorem spans_head : Spans head := by
  refine .expecting _ (spans_firstOf ⟨?_, ?_, ?_⟩)
  · exact .bind spans_theoryAtom fun _ => spans_pure _
  · exact .bind (spans_aggregate spans_literal) fun _ => spans_pure _
  · exact .bind spans_literal fun _ => spans_pure _

theorem spans_body : Spans body := by
  have separator : Spans (firstOf [spacedToken ",", spacedToken ";"]) := by
    exact spans_firstOf ⟨spans_spacedToken (by decide), spans_spacedToken (by decide)⟩
  refine separator.separated1 (.expecting _ (spans_firstOf ⟨?_, ?_⟩))
  · exact .bind spans_theoryAtom fun _ => spans_pure _
  · exact .bind (spans_conditional spans_literal) fun _ => spans_pure _

theorem spans_weightNumber : Spans weightNumber := by
  -- A digit follows the decimal point.
  have fraction : Spans (do char '.'; digits) := by
    intro cursor
    refine .bind (answers_char cursor _) fun _ middle opens => ?_
    refine .bind (answers_satisfy _ _ middle) fun first behind found => ?_
    refine .bind (spans_takeWhile (isPlain_of_ne (by decide)) behind) fun _ next others => ?_
    refine .pure ?_
    rw [opens, found.2]
    refine .point ?_ (.plain (isPlain_of_ne (by decide) first found.1) others)
    rintro rfl
    cases found.1
  have exponent : Spans (do
      let _ ← oneOf ['e', 'E']
      let _ ← optional (oneOf ['+', '-'])
      digits) :=
    .bind (spans_satisfy (isPlain_of_ne (by decide)) _) fun _ =>
      .bind (spans_satisfy (isPlain_of_ne (by decide)) _).optional fun _ => spans_digits
  exact .consumed (.bind (spans_char (by decide)).optional fun _ => .bind spans_digits fun _ =>
    .bind fraction.optional fun _ => .bind exponent.optional fun _ => spans_pure _)

theorem spans_weight : Spans weight := by
  have colon : Spans (refuse (oneOf ['-', '~'])) := by
    intro cursor value next accepted
    simp only [refuse] at accepted
    split at accepted
    · cases accepted
    · cases accepted
      exact .nil _
    · cases accepted
  exact .expecting _ (.bind (.located (.bind spans_weightNumber fun _ => spans_pure _)) fun _ =>
    .bind spans_space fun _ => .bind (spans_char (by decide)) fun _ => .bind colon fun _ =>
      spans_pure _)

theorem spans_headAndBody : Spans headAndBody := by
  have behind : Spans (do spacedToken ":-"; commit body) :=
    .bind (spans_spacedToken (by decide)) fun _ => spans_body.commit
  refine spans_firstOf ⟨?_, ?_⟩
  · exact .bind (spans_token (by decide)) fun _ => .bind spans_space fun _ =>
      .bind spans_body.commit fun _ => spans_pure _
  · exact .bind spans_head fun _ => .bind behind.optional fun _ => spans_pure _

/-- A rule consists of pieces in front of the period at its end. -/
theorem answers_rule_pieces (cursor : Cursor) :
    rule.Answers cursor fun _ next => Pieces cursor.rest ('.' :: next.rest) := by
  have weighted : Spans (do let weight ← weight; space; return weight) :=
    .bind spans_weight fun _ => .bind spans_space fun _ => spans_pure _
  refine .located (.expecting _ (.bind (weighted.optional cursor) fun _ _ first => ?_))
  refine .bind (spans_headAndBody _) fun _ _ second => ?_
  refine .bind (spans_space _) fun _ behind third => ?_
  refine .bind (.expecting _ (answers_word behind _)) fun _ next ends => .pure fun _ => ?_
  rw [ends] at third
  exact first.trans (second.trans third)

/-- The period in front of the key of a weak constraint. -/
theorem answers_period_pieces (cursor : Cursor) :
    (spacedToken ".").Answers cursor fun _ next =>
      next.rest.head? = some '[' → Pieces cursor.rest next.rest := by
  refine .expecting _ (.bind (spans_space cursor) fun _ middle before => ?_)
  refine .bind (answers_word middle _) fun _ behind found => ?_
  rw [found] at before
  cases text : behind.rest with
  | nil =>
      refine (spans_space behind).imp fun _ next pieces opens => ?_
      rw [text] at pieces
      rw [List.suffix_nil.mp pieces.suffix] at opens
      cases opens
  | cons first others =>
      by_cases isPeriod : first = '.'
      · have solid : Solid behind.rest := by
          rw [text, isPeriod]
          exact solid_cons rfl (by decide)
        refine (solid.reads_no_space.answers behind.offset).imp fun _ next stays opens => ?_
        rw [stays.2, text, isPeriod] at opens
        cases opens
      · refine (spans_space behind).imp fun _ next pieces _ => before.trans ?_
        rw [text] at pieces ⊢
        exact .point isPeriod pieces

/-- A weak constraint consists of pieces in front of the bracket at its end. -/
theorem answers_weakConstraint_pieces (cursor : Cursor) :
    weakConstraint.Answers cursor fun _ next => Pieces cursor.rest (']' :: next.rest) := by
  have priority : Spans (do spacedToken "@"; term) :=
    .bind (spans_spacedToken (by decide)) fun _ => spans_term
  have further : Spans (do spacedToken ","; term) :=
    .bind (spans_spacedToken (by decide)) fun _ => spans_term
  refine .located (.expecting _ (.bind (spans_token (by decide) cursor) fun _ _ start => ?_))
  refine .bind (spans_space _) fun _ _ blank => .commit ?_
  refine .bind (spans_body _) fun _ _ body => ?_
  refine .bind (answers_period_pieces _) fun _ bracket period => ?_
  refine .bind ((spans_token (by decide) _).and (.expecting _ (answers_word bracket _)))
    fun _ _ opens => ?_
  have first := start.trans (blank.trans (body.trans (period (by rw [opens.2]; rfl))))
  refine .bind (spans_space _) fun _ _ inside => .bind (spans_term _) fun _ _ weight => ?_
  refine .bind (priority.optional _) fun _ _ level => .bind (further.many _) fun _ _ terms => ?_
  refine .bind (spans_space _) fun _ closed behind => ?_
  refine .bind (.expecting _ (answers_word closed _)) fun _ next closes => .pure fun _ => ?_
  rw [closes] at behind
  have key := inside.trans (weight.trans (level.trans (terms.trans behind)))
  exact first.trans (opens.1.trans key)

end SoftRules.Grammar
