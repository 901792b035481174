import SoftRules.Proofs.Grammar.Passage

/-!
The ranges of the statements of a program.

Each statement of a program that was read remembers the range of bytes that it was read from. The
ranges stand in the order of the program, nothing but space lies outside of them, and the text in
the range of a statement is the statement.
-/

set_option autoImplicit false

namespace SoftRules

open SoftRules.Parser SoftRules.Grammar

namespace Source

/-- The byte `offset` is the start of a character or the end of the text. -/
def IsBoundary (text : List Char) (offset : Nat) : Prop :=
  byteLength (split text offset).1 = offset

/-- The characters between two bytes. -/
def slice (text : List Char) (span : Span) : List Char :=
  (split (split text span.stop).1 span.start).2

/-- What lies outside of the ranges from the byte `start` on: in front of the first range, between
any two of them and behind the last one. -/
def gaps (text : List Char) (start : Nat) : List Span → List (List Char)
  | [] => [(split text start).2]
  | span :: spans => slice text ⟨start, span.start⟩ :: gaps text span.stop spans

end Source

namespace Cursor

variable {text : List Char} {cursor next : Cursor}

theorem text_of_start_le (reached : start text ≤ cursor) :
    ∃ before, text = before ++ cursor.rest ∧ Source.byteLength before = cursor.offset := by
  obtain ⟨count, rfl⟩ := reached
  exact ⟨text.take count, by simp [start, advance], by simp [start, advance]⟩

theorem split_of_start_le (reached : start text ≤ cursor) :
    (Source.split text cursor.offset).2 = cursor.rest := by
  obtain ⟨before, isText, isOffset⟩ := text_of_start_le reached
  rw [isText, ← isOffset, Source.split_byteLength]

theorem isBoundary_of_start_le (reached : start text ≤ cursor) :
    Source.IsBoundary text cursor.offset := by
  obtain ⟨before, isText, isOffset⟩ := text_of_start_le reached
  rw [Source.IsBoundary, isText, ← isOffset, Source.split_byteLength]

/-- What is read between two places is the slice between them. -/
theorem rest_eq_slice (reached : start text ≤ cursor) (further : cursor ≤ next) :
    cursor.rest = Source.slice text ⟨cursor.offset, next.offset⟩ ++ next.rest := by
  obtain ⟨before, isText, isOffset⟩ := text_of_start_le reached
  obtain ⟨count, rfl⟩ := further
  have split := List.take_append_drop count cursor.rest
  have isStop : (cursor.advance count).offset =
      Source.byteLength (before ++ cursor.rest.take count) := by
    rw [Source.byteLength_append, isOffset]
    rfl
  have isSlice : Source.slice text ⟨cursor.offset, (cursor.advance count).offset⟩ =
      cursor.rest.take count := by
    rw [Source.slice, isText, ← split, ← List.append_assoc, isStop, Source.split_byteLength,
      ← isOffset, Source.split_byteLength, split]
  rw [isSlice]
  exact split.symm

theorem offset_le (further : cursor ≤ next) : cursor.offset ≤ next.offset := by
  obtain ⟨count, rfl⟩ := further
  exact Nat.le_add_right _ _

end Cursor

/-- The ranges of the statements of a program, from the byte `start` of its text on. -/
structure StatementRanges (text : List Char) (start : Nat) (program : Program)
    (spans : List Span) : Prop where
  origins : program.map Statement.origin = spans.map some
  nonempty : ∀ span ∈ spans, span.start < span.stop
  boundaries : ∀ span ∈ spans, Source.IsBoundary text span.start ∧ Source.IsBoundary text span.stop
  behind : ∀ span ∈ spans, start ≤ span.start
  ordered : spans.Pairwise fun first second => first.stop ≤ second.start
  gaps : ∀ gap ∈ Source.gaps text start spans, space.run gap = .ok ()
  statements : List.Forall₂ (fun statement span => ∃ again,
    Statement.parse (Source.slice text span) = .ok again ∧ again.same statement = true) program spans

namespace StatementRanges

variable {text : List Char} {start : Nat} {program : Program} {spans : List Span}

theorem nil (gap : space.run (Source.split text start).2 = .ok ()) :
    StatementRanges text start [] [] where
  origins := rfl
  nonempty := nofun
  boundaries := nofun
  behind := nofun
  ordered := .nil
  gaps := by simpa [Source.gaps] using gap
  statements := .nil

/-- A statement in front of the others, with the gap in front of it. -/
theorem cons {found : Statement} {span : Span}
    (ranges : StatementRanges text span.stop program spans) (origin : found.origin = some span)
    (isNonempty : span.start < span.stop)
    (areBoundaries : Source.IsBoundary text span.start ∧ Source.IsBoundary text span.stop)
    (isBehind : start ≤ span.start)
    (gap : space.run (Source.slice text ⟨start, span.start⟩) = .ok ())
    (parses : ∃ again, Statement.parse (Source.slice text span) = .ok again ∧
      again.same found = true) :
    StatementRanges text start (found :: program) (span :: spans) where
  origins := by rw [List.map_cons, List.map_cons, origin, ranges.origins]
  nonempty := List.forall_mem_cons.mpr ⟨isNonempty, ranges.nonempty⟩
  boundaries := List.forall_mem_cons.mpr ⟨areBoundaries, ranges.boundaries⟩
  behind := by
    refine List.forall_mem_cons.mpr ⟨isBehind, fun other member => ?_⟩
    have further := ranges.behind other member
    omega
  ordered := .cons ranges.behind ranges.ordered
  gaps := List.forall_mem_cons.mpr ⟨gap, ranges.gaps⟩
  statements := .cons parses ranges.statements

end StatementRanges

theorem run_space {cursor next : Cursor} {gap : List Char}
    (spaced : space.read cursor = .accept () next) (isGap : cursor.rest = gap ++ next.rest) :
    space.run gap = .ok () := by
  obtain ⟨-, other, isOther, reads⟩ := answers_space _ _ _ spaced
  obtain rfl : other = gap := List.append_cancel_right (isOther.symm.trans isGap)
  have whole := reads [] List.nil_prefix
  rw [List.append_nil] at whole
  obtain ⟨_, isRun, -⟩ := whole.run
  exact isRun

theorem Grammar.Passage.ranges {text : List Char} {cursor last : Cursor} {program : Program}
    (passage : Passage cursor program last) (isEnd : last.rest = [])
    (reached : Cursor.start text ≤ cursor) :
    ∃ spans, StatementRanges text cursor.offset program spans := by
  induction passage with
  | finish spaced =>
      refine ⟨[], .nil (run_space spaced ?_)⟩
      rw [Cursor.split_of_start_le reached, isEnd, List.append_nil]
  | @step cursor start behind last found others spaced accepted passage inductionHypothesis =>
      have started := Cursor.le_trans reached (le_of_read spaced)
      have passed := Cursor.le_trans started (le_of_read accepted)
      have shorter := consumes_statement start found behind accepted
      have isNonempty := Cursor.offset_lt_of_length_lt (le_of_read accepted) shorter
      have isGap := Cursor.rest_eq_slice reached (le_of_read spaced)
      have isText := Cursor.rest_eq_slice started (le_of_read accepted)
      obtain ⟨solid, -⟩ := answers_space _ _ _ spaced
      obtain ⟨spans, ranges⟩ := inductionHypothesis isEnd passed
      refine ⟨⟨start.offset, behind.offset⟩ :: spans, ranges.cons ?_ isNonempty ?_ ?_ ?_ ?_⟩
      · exact answers_statement_origin _ _ _ accepted
      · exact ⟨Cursor.isBoundary_of_start_le started, Cursor.isBoundary_of_start_le passed⟩
      · exact Cursor.offset_le (le_of_read spaced)
      · exact run_space spaced isGap
      · exact parse_statement solid accepted isText (passage.head_ne_period isEnd)

/-- Every statement of an accepted program stands in its range, alone and complete. -/
theorem Program.ranges_are_faithful {text : List Char} {program : Program}
    (parsed : Program.parse text = .ok program) :
    ∃ spans, StatementRanges text 0 program spans := by
  obtain ⟨last, passage, isEnd⟩ := passage_of_parse parsed
  exact passage.ranges isEnd (Cursor.le_refl _)

/-- Statements with comments between them, and characters of more than one byte. -/
def Program.annotated : List Char :=
  "%* é *% 2 : p(\"é\"). % half.\n:~ p(X), X = 1..2. [1@2]#show p/1.%".toList

theorem Program.ranges_are_faithful_annotated :
    ∃ source, Program.parse Program.annotated = .ok source ∧
      source.map Statement.origin = [some ⟨9, 21⟩, some ⟨30, 54⟩, some ⟨54, 64⟩] ∧
        ∃ spans, StatementRanges Program.annotated 0 source spans := by
  have succeeds : (match Program.parse Program.annotated with
      | .ok source => source.map Statement.origin
      | .error _ => []) = [some ⟨9, 21⟩, some ⟨30, 54⟩, some ⟨54, 64⟩] := by
    decide +kernel
  cases parsed : Program.parse Program.annotated with
  | error error =>
      rw [parsed] at succeeds
      cases succeeds
  | ok source =>
      rw [parsed] at succeeds
      exact ⟨source, rfl, succeeds, Program.ranges_are_faithful parsed⟩

end SoftRules
