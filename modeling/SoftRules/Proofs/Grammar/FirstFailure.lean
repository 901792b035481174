import SoftRules.Proofs.Grammar.Ranges

/-!
Where a program that is not accepted goes wrong.

The error names the first place at which no statement can be read. What stands in front of that
place is a program, and what stands behind it does not start with a statement, wherever it is read.
-/

set_option autoImplicit false

namespace SoftRules

open SoftRules.Parser SoftRules.Grammar

/-- What is no statement at some place of a text is none at the start of a text either. -/
theorem Grammar.Stuck.fails_at_start {cursor : Cursor} {error : ParseError}
    (stuck : Stuck cursor error) (found : Statement) (next : Cursor) :
    statement.read (.start cursor.rest) ≠ .accept found next := by
  intro accepted
  obtain ⟨text, isText⟩ := text_of_read accepted
  have isStart : Cursor.start cursor.rest = ⟨0, text ++ next.rest⟩ := congrArg (Cursor.mk 0) isText
  rw [isStart] at accepted
  obtain ⟨other, stop, isRead, -⟩ := reads_statement_of_part accepted (List.prefix_refl _)
    (fun _ => .inr rfl) cursor.offset
  refine stuck.fails other ⟨stop, next.rest⟩ ?_
  rw [← isRead]
  exact congrArg statement.read (congrArg (Cursor.mk cursor.offset) isText)

/-- A program fails at its first statement that cannot be read, behind a program. -/
theorem Program.fails_at_first_failure {text : List Char} {error : ParseError}
    (failed : Program.parse text = .error error) :
    error.outer.cause = .expected .statement ∧
      Source.IsBoundary text error.outer.offset ∧
      error.outer.offset < Source.byteLength text ∧
      (∃ program, Program.parse (Source.split text error.outer.offset).1 = .ok program) ∧
      ∀ found next, statement.read (.start (Source.split text error.outer.offset).2) ≠
        .accept found next := by
  obtain ⟨content, last, passage, stuck⟩ := passage_of_parse_error failed
  obtain ⟨before, isText, isOffset⟩ := Cursor.text_of_start_le passage.le
  have isPlace : error.outer.offset = last.offset := congrArg _ stuck.isExpected
  have isSplit : Source.split text error.outer.offset = (before, last.rest) := by
    rw [isPlace, isText, ← isOffset, Source.split_byteLength]
  rw [isSplit]
  refine ⟨congrArg _ stuck.isExpected, ?_, ?_, ?_, stuck.fails_at_start⟩
  · rw [isPlace]
    exact Cursor.isBoundary_of_start_le passage.le
  · have positive := Source.byteLength_pos stuck.nonempty
    rw [isPlace, isText, Source.byteLength_append]
    omega
  · obtain ⟨program, parsed, -⟩ := (passage.reads isText).run
    exact ⟨program, parsed⟩

/-- The third statement has no literal behind its sign. -/
def Program.unfinished : List Char :=
  "p(\"é\"). % half.\n#show p/1. 3 : q(X) :- not .\nr.".toList

theorem Program.fails_at_first_failure_unfinished :
    ∃ error, Program.parse Program.unfinished = .error error ∧
      error.outer = ⟨.expected .statement, 28⟩ ∧
      Source.IsBoundary Program.unfinished 28 ∧ 28 < Source.byteLength Program.unfinished ∧
      (∃ program, Program.parse (Source.split Program.unfinished 28).1 = .ok program) ∧
      ∀ found next, statement.read (.start (Source.split Program.unfinished 28).2) ≠
        .accept found next := by
  have fails : (match Program.parse Program.unfinished with
      | .ok _ => none
      | .error error => some error.outer) = some ⟨.expected .statement, 28⟩ := by
    decide +kernel
  cases parsed : Program.parse Program.unfinished with
  | ok program =>
      rw [parsed] at fails
      cases fails
  | error error =>
      rw [parsed] at fails
      have isOuter := Option.some.inj fails
      have failure := (Program.fails_at_first_failure parsed).2
      rw [isOuter] at failure
      exact ⟨error, rfl, isOuter, failure⟩

end SoftRules
