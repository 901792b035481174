import SoftRules.Grammar.Statement
import SoftRules.Proofs.Grammar.Ranges
import SoftRules.Proofs.Parser.Blame

/-!
The positions of the errors that are reported for a text. Every production of the grammar blames
places of the text, so the complaints of an error stand at characters of the text or at its end, one
behind the other.
-/

set_option autoImplicit false

namespace SoftRules.Grammar

open SoftRules.Parser

theorem blames_comment : comment.Blames := by
  refine blames_firstOf ⟨?_, ?_, blames_word _⟩
  · exact .bind (blames_word _) fun _ => .bind (blames_takeUntil _ _) fun _ => blames_word _
  · exact .bind (blames_word _) fun _ => .bind (blames_takeWhile1 _ _) fun _ => blames_pure _

theorem blames_spaceItem : spaceItem.Blames := by
  exact blames_firstOf ⟨.bind (blames_takeWhile1 _ _) fun _ => blames_pure _, blames_comment⟩

theorem blames_space : space.Blames := .bind blames_spaceItem.many fun _ => blames_pure _

theorem blames_space1 : space1.Blames := .bind blames_spaceItem.many1 fun _ => blames_pure _

theorem blames_token (spelling : String) : (token spelling).Blames := (blames_word _).expecting _

theorem blames_spacedToken (spelling : String) : (spacedToken spelling).Blames :=
  .expecting _ (.bind blames_space fun _ => .bind (blames_word _) fun _ => blames_space)

theorem blames_braced {α : Type} {content : Parser α} (blames : content.Blames) :
    (braced content).Blames :=
  .bind (blames_char _) fun _ => .bind blames_space fun _ => .bind blames fun _ =>
    .bind blames_space fun _ => .bind (blames_char _) fun _ => blames_pure _

/-! Terms. -/

theorem blames_name (isFirst : Char → Bool) : (name isFirst).Blames :=
  .bind (blames_satisfy _ _) fun _ => .bind (blames_takeWhile _) fun _ => blames_pure _

theorem blames_digits : digits.Blames := blames_takeWhile1 _ _

theorem blames_integer : integer.Blames :=
  .convert (.bind (blames_char _).optional fun _ => .bind blames_digits fun _ => blames_pure _)

theorem blames_quotedText : quotedText.Blames := by
  refine .expecting _ (.bind (blames_char _) fun _ => .bind (.many (blames_firstOf ?_)) fun _ =>
    .bind (blames_char _) fun _ => blames_pure _)
  refine ⟨blames_takeWhile1 _ _, ?_⟩
  exact .bind (blames_char _) fun _ => .bind (blames_oneOf _) fun _ => blames_pure _

section Terms

variable {term : Parser Term} (blames : term.Blames)

include blames

theorem blames_arguments : (arguments term).Blames := by
  have comma : (do space; char ',').Blames := .bind blames_space fun _ => blames_char _
  exact .bind (blames_char _) fun _ => .bind blames_space fun _ =>
    .bind ((blames_spacedToken _).separated blames) fun _ => .bind comma.optional fun _ =>
      .bind blames_space fun _ => .bind (blames_char _) fun _ => blames_pure _

theorem blames_functionTerm : (functionTerm term).Blames :=
  .located (.bind (blames_name _) fun _ => .bind (blames_arguments blames).optional fun _ =>
    blames_pure _)

theorem blames_primary : (primary term).Blames := by
  refine .located (blames_firstOf ⟨?_, ?_, blames_functionTerm blames, ?_⟩)
  · exact .bind (.located (.expecting _ (.bind (blames_name _) fun _ => blames_pure _)))
      fun _ => blames_pure _
  · exact .bind blames_quotedText fun _ => blames_pure _
  · refine .bind (blames_arguments blames) fun found => ?_
    split
    · exact blames_pure _
    · exact blames_pure _

end Terms

theorem blames_infixOperator : infixOperator.Blames := by
  refine .bind blames_space fun _ => blames_firstOf (List.forall_iff_forall_mem.mpr ?_)
  intro parser member
  obtain ⟨operator, -, rfl⟩ := List.mem_map.mp member
  exact .bind (blames_word _) fun _ => blames_pure _

section Operations

variable {operation : Nat → Parser Term} (blames : ∀ strength, (operation strength).Blames)

include blames

theorem blames_operand : (operand operation).Blames := by
  refine blames_firstOf ⟨?_, ?_, blames_primary ((blames 0).expecting _)⟩
  · exact .located (.bind blames_integer fun _ => blames_pure _)
  · exact .located (.bind (blames_char _) fun _ => .bind blames_space fun _ =>
      .bind (blames _) fun _ => blames_pure _)

theorem blames_continuation (strength : Nat) : (continuation operation strength).Blames := by
  refine .bind blames_infixOperator.optional fun found => ?_
  cases found with
  | none => exact blames_pure _
  | some operator =>
      simp only
      split
      · exact blames_pure _
      · exact .bind blames_space fun _ => .bind (blames _) fun _ =>
          .bind blames_offset fun _ => blames_pure _

theorem blames_operationStep (strength : Nat) : (operationStep operation strength).Blames :=
  .bind blames_offset fun _ => .bind (blames_operand blames) fun _ =>
    .bind (blames_continuation blames strength).rounds fun _ => blames_pure _

end Operations

theorem blames_operation (strength : Nat) : (operation strength).Blames :=
  blames_fix (fun _ => blames_operationStep) strength

theorem blames_term : term.Blames := (blames_operation 0).expecting _

/-! Literals. -/

theorem blames_relation : relation.Blames := by
  refine .expecting _ (blames_firstOf (List.forall_iff_forall_mem.mpr ?_))
  intro parser member
  obtain ⟨⟨spelling, relation⟩, -, rfl⟩ := List.mem_map.mp member
  exact .bind (blames_word _) fun _ => blames_pure _

theorem blames_boolean : boolean.Blames := by
  refine .located (blames_firstOf ⟨?_, ?_⟩)
  all_goals exact .bind (blames_word _) fun _ => blames_pure _

theorem blames_comparison : comparison.Blames :=
  .located (.bind blames_term fun _ => .bind blames_space fun _ => .bind blames_relation fun _ =>
    .bind blames_space fun _ => .bind blames_term fun _ => blames_pure _)

theorem blames_predicate : predicate.Blames := by
  have minus : (do char '-'; space).Blames := .bind (blames_char _) fun _ => blames_space
  exact .located (.bind minus.optional fun _ => .bind (blames_functionTerm blames_term) fun _ =>
    blames_pure _)

theorem blames_leadingGuard : leadingGuard.Blames := by
  have behind : (do space; relation).Blames := .bind blames_space fun _ => blames_relation
  have guard : leftGuard.Blames := .bind blames_term fun _ => .bind behind.optional fun _ =>
    blames_pure _
  exact .optional (.bind guard fun _ => .bind blames_space fun _ => blames_pure _)

theorem blames_trailingGuard : trailingGuard.Blames := by
  have inFront : (do let relation ← relation; space; return relation).Blames :=
    .bind blames_relation fun _ => .bind blames_space fun _ => blames_pure _
  have guard : rightGuard.Blames := .bind inFront.optional fun _ => .bind blames_term fun _ =>
    blames_pure _
  exact .optional (.bind blames_space fun _ => guard)

theorem blames_aggregateFunction : aggregateFunction.Blames :=
  .convert (.consumed (.bind (blames_char _) fun _ => .bind (blames_takeWhile1 _ _) fun _ =>
    .bind (blames_char _).optional fun _ => blames_pure _))

section Literals

variable {literal : Parser Literal} (blames : literal.Blames)

include blames

theorem blames_condition : (condition literal).Blames := by
  have literals : (do spacedToken ":"; separated1 (spacedToken ",") literal).Blames :=
    .bind (blames_spacedToken _) fun _ => (blames_spacedToken _).separated1 blames
  exact .bind literals.optional fun _ => blames_pure _

theorem blames_conditional : (conditional literal).Blames :=
  .located (.bind blames fun _ => .bind (blames_condition blames) fun _ => blames_pure _)

theorem blames_element : (element literal).Blames :=
  .bind ((blames_spacedToken _).separated1 blames_term) fun _ =>
    .bind (blames_condition blames) fun _ => blames_pure _

theorem blames_elements : (braced (separated (spacedToken ";") (element literal))).Blames :=
  blames_braced ((blames_spacedToken _).separated (blames_element blames))

theorem blames_aggregate : (aggregate literal).Blames :=
  .located (.bind blames_leadingGuard fun _ =>
    .bind (blames_braced ((blames_spacedToken _).separated (blames_conditional blames))) fun _ =>
      .bind blames_trailingGuard fun _ => blames_pure _)

theorem blames_bodyAggregate : (bodyAggregate literal).Blames :=
  .located (.bind blames_leadingGuard fun _ => .bind blames_aggregateFunction fun _ =>
    .bind blames_space fun _ => .bind (blames_elements blames) fun _ =>
      .bind blames_trailingGuard fun _ => blames_pure _)

theorem blames_atom : (atom literal).Blames := by
  refine .expecting _ (blames_firstOf ⟨blames_boolean, ?_, ?_, blames_comparison, blames_predicate⟩)
  · exact .bind (blames_aggregate blames) fun _ => blames_pure _
  · exact .bind (blames_bodyAggregate blames) fun _ => blames_pure _

end Literals

theorem blames_sign : sign.Blames := by
  have negation : negation.Blames := .bind (blames_word _) fun _ => blames_space1
  refine blames_firstOf ⟨?_, ?_, blames_pure _⟩
  · exact .bind negation fun _ => .bind negation fun _ => blames_pure _
  · exact .bind negation fun _ => blames_pure _

theorem blames_literal : literal.Blames :=
  blames_fix (fun _ blames _ => .located (.expecting _ (.bind blames_sign fun _ =>
    .bind (blames_atom (blames ())) fun _ => blames_pure _))) ()

/-! Statements. -/

theorem blames_theoryAtom : theoryAtom.Blames := by
  have elements : (do space; braced (separated (spacedToken ";") (element literal))).Blames :=
    .bind blames_space fun _ => blames_elements blames_literal
  have guard : (do
      space
      let relation ← relation
      space
      return { relation, term := ← term } : Parser Guard).Blames :=
    .bind blames_space fun _ => .bind blames_relation fun _ => .bind blames_space fun _ =>
      .bind blames_term fun _ => blames_pure _
  exact .located (.expecting _ (.bind (blames_char _) fun _ => .bind (blames_name _) fun _ =>
    .bind (blames_arguments blames_term).optional fun _ => .bind elements.optional fun _ =>
      .bind guard.optional fun _ => blames_pure _))

theorem blames_head : head.Blames := by
  refine .expecting _ (blames_firstOf ⟨?_, ?_, ?_⟩)
  · exact .bind blames_theoryAtom fun _ => blames_pure _
  · exact .bind (blames_aggregate blames_literal) fun _ => blames_pure _
  · exact .bind blames_literal fun _ => blames_pure _

theorem blames_body : body.Blames := by
  have separator : (firstOf [spacedToken ",", spacedToken ";"]).Blames := by
    exact blames_firstOf ⟨blames_spacedToken _, blames_spacedToken _⟩
  refine separator.separated1 (.expecting _ (blames_firstOf ⟨?_, ?_⟩))
  · exact .bind blames_theoryAtom fun _ => blames_pure _
  · exact .bind (blames_conditional blames_literal) fun _ => blames_pure _

theorem blames_weight : weight.Blames := by
  have fraction : (do char '.'; digits).Blames := .bind (blames_char _) fun _ => blames_digits
  have exponent : (do
      let _ ← oneOf ['e', 'E']
      let _ ← optional (oneOf ['+', '-'])
      digits).Blames :=
    .bind (blames_oneOf _) fun _ => .bind (blames_oneOf _).optional fun _ => blames_digits
  have number : weightNumber.Blames :=
    .consumed (.bind (blames_char _).optional fun _ => .bind blames_digits fun _ =>
      .bind fraction.optional fun _ => .bind exponent.optional fun _ => blames_pure _)
  exact .expecting _ (.bind (.located (.bind number fun _ => blames_pure _)) fun _ =>
    .bind blames_space fun _ => .bind (blames_char _) fun _ =>
      .bind (blames_oneOf _).refuse fun _ => blames_pure _)

theorem blames_rule : rule.Blames := by
  have weighted : (do let weight ← weight; space; return weight).Blames :=
    .bind blames_weight fun _ => .bind blames_space fun _ => blames_pure _
  have behind : (do spacedToken ":-"; commit body).Blames :=
    .bind (blames_spacedToken _) fun _ => blames_body.commit
  have headAndBody : headAndBody.Blames := by
    refine blames_firstOf ⟨?_, ?_⟩
    · exact .bind (blames_token _) fun _ => .bind blames_space fun _ =>
        .bind blames_body.commit fun _ => blames_pure _
    · exact .bind blames_head fun _ => .bind behind.optional fun _ => blames_pure _
  exact .located (.expecting _ (.bind weighted.optional fun _ => .bind headAndBody fun _ =>
    .bind blames_space fun _ => .bind (blames_token _) fun _ => blames_pure _))

theorem blames_weakConstraint : weakConstraint.Blames := by
  have priority : (do spacedToken "@"; term).Blames :=
    .bind (blames_spacedToken _) fun _ => blames_term
  have further : (do spacedToken ","; term).Blames :=
    .bind (blames_spacedToken _) fun _ => blames_term
  exact .located (.expecting _ (.bind (blames_token _) fun _ => .bind blames_space fun _ => .commit
    (.bind blames_body fun _ => .bind (blames_spacedToken _) fun _ =>
      .bind (blames_token _) fun _ => .bind blames_space fun _ => .bind blames_term fun _ =>
        .bind priority.optional fun _ => .bind further.many fun _ => .bind blames_space fun _ =>
          .bind (blames_token _) fun _ => blames_pure _)))

theorem blames_directive : directive.Blames := by
  have name : directiveName.Blames := .convert (blames_takeWhile1 _ _)
  exact .located (.expecting _ (.bind (.consumed (.bind (blames_char _) fun _ => .bind name fun _ =>
    blames_takeUntil _ _)) fun _ => .bind (blames_token _) fun _ => blames_pure _))

theorem blames_statement : statement.Blames := by
  refine .expecting _ (blames_firstOf ⟨?_, ?_, ?_⟩)
  · exact .bind blames_directive fun _ => blames_pure _
  · exact .bind blames_weakConstraint fun _ => blames_pure _
  · exact .bind blames_rule fun _ => blames_pure _

theorem blames_program : program.Blames :=
  .bind blames_space fun _ => .untilEnd (.bind blames_statement.commit fun _ =>
    .bind blames_space fun _ => blames_pure _)

theorem blames_singleStatement : singleStatement.Blames :=
  .bind blames_space fun _ => .bind blames_statement fun _ => .bind blames_space fun _ =>
    blames_pure _

end SoftRules.Grammar

namespace SoftRules

open SoftRules.Parser SoftRules.Grammar SoftRules.ParseError

namespace Source

/-- In front of the byte `offset` stand finished lines and the first part of the current line. -/
structure StandsBehind (text lines current : List Char) (offset : Nat) : Prop where
  isStart : lines ++ current <+: text
  isOffset : byteLength (lines ++ current) = offset
  areFinished : lines = [] ∨ lines.getLast? = some '\n'
  isUnfinished : '\n' ∉ current

theorem exists_lines (before : List Char) : ∃ lines current, before = lines ++ current ∧
    current = (before.reverse.takeWhile (· != '\n')).reverse ∧
    (lines = [] ∨ lines.getLast? = some '\n') ∧ '\n' ∉ current := by
  refine ⟨(before.reverse.dropWhile (· != '\n')).reverse,
    (before.reverse.takeWhile (· != '\n')).reverse, ?_, rfl, ?_, ?_⟩
  · rw [← List.reverse_append, List.takeWhile_append_dropWhile, List.reverse_reverse]
  · rw [List.reverse_eq_nil_iff, List.getLast?_reverse]
    cases rest : before.reverse.dropWhile (· != '\n') with
    | nil => exact .inl rfl
    | cons first others =>
        have nonempty : before.reverse.dropWhile (· != '\n') ≠ [] := by simp [rest]
        have stopped := List.head_dropWhile_not (· != '\n') nonempty
        simp only [rest, List.head_cons, bne_eq_false_iff_eq] at stopped
        exact .inr (congrArg some stopped)
  · intro member
    have refused := List.mem_takeWhile_imp (List.mem_reverse.mp member)
    simp at refused

variable {text before after : List Char} {offset : Nat}

/-- Lines and columns are counted in what stands in front of a byte. -/
theorem position_of_split (isText : text = before ++ after)
    (isOffset : byteLength before = offset) :
    ∃ lines current, StandsBehind text lines current offset ∧
      line text offset = (lines ++ current).count '\n' + 1 ∧
      column text offset = current.length + 1 := by
  have isSplit : split text offset = (before, after) := by
    rw [isText, ← isOffset, split_byteLength]
  obtain ⟨lines, current, rfl, isCurrent, areFinished, isUnfinished⟩ := exists_lines before
  refine ⟨lines, current, ⟨⟨after, isText.symm⟩, isOffset, areFinished, isUnfinished⟩, ?_, ?_⟩
  · rw [line, isSplit]
  · rw [column, lineStart, isSplit, ← isCurrent]

theorem split_byteLength_succ (before after : List Char) :
    split (before ++ after) (byteLength before + 1) = (before ++ after.take 1, after.drop 1) := by
  induction before with
  | nil =>
      cases after with
      | nil => rfl
      | cons character after =>
          have positive := character.utf8Size_pos
          have nothing : 0 + 1 - character.utf8Size = 0 := by omega
          rw [List.nil_append, byteLength, split, nothing]
          cases after <;> rfl
  | cons character before inductionHypothesis =>
      have positive := character.utf8Size_pos
      have remaining : byteLength (character :: before) + 1 - character.utf8Size =
          byteLength before + 1 := by
        rw [byteLength]
        omega
      rw [List.cons_append, split, remaining, inductionHypothesis]
      rfl

/-- One byte more takes one character more, as long as there is one. -/
theorem characterRange_of_split (isText : text = before ++ after)
    (isOffset : byteLength before = offset) :
    characterRange text ⟨offset, offset + 1⟩ =
      ⟨before.length, if after = [] then before.length else before.length + 1⟩ := by
  rw [characterRange, characterIndex, characterIndex, isText, ← isOffset, split_byteLength,
    split_byteLength_succ]
  cases after <;> simp

end Source

namespace Trace

variable {text : List Char} {cursor : Cursor} {complaints : List Complaint}

theorem offset_le (trace : Trace cursor complaints) :
    ∀ complaint ∈ complaints, cursor.offset ≤ complaint.offset := by
  induction trace with
  | nil => exact nofun
  | cons forward isPlace others inductionHypothesis =>
      have least := Cursor.offset_le forward
      refine List.forall_mem_cons.mpr ⟨isPlace.symm ▸ least, fun other member => ?_⟩
      exact Nat.le_trans least (inductionHypothesis other member)

theorem ordered (trace : Trace cursor complaints) :
    complaints.Pairwise fun outer inner => outer.offset ≤ inner.offset := by
  induction trace with
  | nil => exact .nil
  | cons forward isPlace others inductionHypothesis =>
      exact .cons (isPlace.symm ▸ others.offset_le) inductionHypothesis

/-- Every complaint is about a place of the text. -/
theorem exists_split (trace : Trace cursor complaints) (reached : Cursor.start text ≤ cursor) :
    ∀ complaint ∈ complaints, ∃ before after, text = before ++ after ∧
      Source.byteLength before = complaint.offset := by
  induction trace with
  | nil => exact nofun
  | cons forward isPlace others inductionHypothesis =>
      have further := Cursor.le_trans reached forward
      obtain ⟨before, isText, isOffset⟩ := Cursor.text_of_start_le further
      refine List.forall_mem_cons.mpr ⟨⟨before, _, isText, isOffset.trans isPlace.symm⟩, ?_⟩
      exact inductionHypothesis further

end Trace

/-- The positions of an error make sense in the text. -/
structure ParseError.WellPlaced (text : List Char) (error : ParseError) : Prop where
  ordered : error.complaints.Pairwise fun outer inner => outer.offset ≤ inner.offset
  bounded : ∀ complaint ∈ error.complaints, complaint.offset ≤ Source.byteLength text
  boundaries : ∀ complaint ∈ error.complaints, Source.IsBoundary text complaint.offset
  positions : ∀ complaint ∈ error.complaints, ∃ lines current,
    Source.StandsBehind text lines current complaint.offset ∧
      Source.line text complaint.offset = (lines ++ current).count '\n' + 1 ∧
      Source.column text complaint.offset = current.length + 1
  range : ∃ before after, text = before ++ after ∧
    Source.byteLength before = error.innermost.offset ∧
    Source.characterRange text error.span =
      ⟨before.length, if after = [] then before.length else before.length + 1⟩

theorem ParseError.innermost_mem (error : ParseError) : error.innermost ∈ error.complaints :=
  List.getLastD_mem_cons

theorem ParseError.wellPlaced_of_trace {text : List Char} {error : ParseError}
    (trace : Trace (.start text) error.complaints) : error.WellPlaced text := by
  have splits := trace.exists_split (Cursor.le_refl _)
  refine ⟨trace.ordered, ?_, ?_, ?_, ?_⟩
  · intro complaint member
    obtain ⟨before, after, rfl, isOffset⟩ := splits complaint member
    rw [Source.byteLength_append]
    omega
  · intro complaint member
    obtain ⟨before, after, isText, isOffset⟩ := splits complaint member
    rw [Source.IsBoundary, isText, ← isOffset, Source.split_byteLength]
  · intro complaint member
    obtain ⟨before, after, isText, isOffset⟩ := splits complaint member
    exact Source.position_of_split isText isOffset
  · obtain ⟨before, after, isText, isOffset⟩ := splits _ error.innermost_mem
    exact ⟨before, after, isText, isOffset, Source.characterRange_of_split isText isOffset⟩

/-- Whatever is wrong with a text is reported at places of the text, from the outside in. -/
theorem parse_errors_well_placed {text : List Char} {error : ParseError}
    (failed : Program.parse text = .error error ∨ Statement.parse text = .error error) :
    error.WellPlaced text := by
  rcases failed with failed | failed
  · exact wellPlaced_of_trace (blames_program.run failed)
  · exact wellPlaced_of_trace (blames_singleStatement.run failed)

/-- A variable of the second line starts with a letter that is none of a variable. -/
def Program.garbled : List Char := "p(\"é\"). % half.\nq(\"é\", é).".toList

/-- A statement without its period. -/
def Statement.unended : List Char := "p(\"é\")".toList

theorem parse_errors_well_placed_accented :
    (∃ error, Program.parse Program.garbled = .error error ∧
      error.complaints.map Complaint.offset = [17, 17, 17, 18, 18] ∧
        error.WellPlaced Program.garbled) ∧
    ∃ error, Statement.parse Statement.unended = .error error ∧
      error.complaints.map Complaint.offset = [0, 0, 0, 7, 7] ∧
        error.WellPlaced Statement.unended := by
  have program : (match Program.parse Program.garbled with
      | .ok _ => []
      | .error error => error.complaints.map Complaint.offset) = [17, 17, 17, 18, 18] := by
    decide +kernel
  have statement : (match Statement.parse Statement.unended with
      | .ok _ => []
      | .error error => error.complaints.map Complaint.offset) = [0, 0, 0, 7, 7] := by
    decide +kernel
  constructor
  · cases failed : Program.parse Program.garbled with
    | ok found =>
        rw [failed] at program
        cases program
    | error error =>
        rw [failed] at program
        exact ⟨error, rfl, program, parse_errors_well_placed (.inl failed)⟩
  · cases failed : Statement.parse Statement.unended with
    | ok found =>
        rw [failed] at statement
        cases statement
    | error error =>
        rw [failed] at statement
        exact ⟨error, rfl, statement, parse_errors_well_placed (.inr failed)⟩

end SoftRules
