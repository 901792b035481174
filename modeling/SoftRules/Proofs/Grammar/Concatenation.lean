import SoftRules.Proofs.Grammar.Continuation

/-!
One program behind another.

Two programs in a row, with a line feed between them, are the program with the statements of both.
The first one is read as if it stood alone: a comment in its last line ends at the line feed, and so
does a directive. The second one is read as it would be at the start of a text, only that it stands
further behind.
-/

set_option autoImplicit false

namespace SoftRules

/-- The range of the same characters in a text that has `distance` bytes more in front of it. -/
def Span.moved (distance : Nat) (span : Span) : Span :=
  ⟨span.start + distance, span.stop + distance⟩

theorem Span.moved_zero : Span.moved 0 = id := rfl

namespace Grammar

open SoftRules.Parser

/-! Space with a line feed behind it. -/

section Space

variable {text middle left : List Char}

/-- Space is what its first item leaves of it. -/
theorem reads_space_iff_of_item (first : spaceItem.Reads text middle fun _ => True)
    (shorter : middle.length < text.length) :
    space.Reads text left (fun _ => True) ↔ space.Reads middle left fun _ => True := by
  obtain ⟨other, items⟩ := exists_reads_spaceItems middle
  have behind : space.Reads middle other fun _ => True := .bind items fun _ _ => .pure trivial
  have whole : space.Reads text other fun _ => True :=
    .bind (.many_cons first shorter items) fun _ _ => .pure trivial
  constructor
  · intro reads
    rw [reads.left_unique whole]
    exact behind
  · intro reads
    rw [reads.left_unique behind]
    exact whole

theorem reads_space_run {first : Char} (isBlank : isSpace first = true) (others : List Char) :
    space.Reads (first :: others) left (fun _ => True) ↔
      space.Reads (others.dropWhile isSpace) left fun _ => True := by
  have run := reads_longest_run .spaces isBlank others
  rw [List.dropWhile_cons_of_pos isBlank] at run
  apply reads_space_iff_of_item
  · exact .firstOf (.head (.bind run fun _ _ => .pure trivial))
  · exact Nat.lt_succ_of_le (List.dropWhile_suffix isSpace).length_le

/-- A blank in front changes nothing. -/
theorem reads_space_blank {first : Char} (isBlank : isSpace first = true) :
    space.Reads (first :: text) left (fun _ => True) ↔ space.Reads text left fun _ => True := by
  rw [reads_space_run isBlank]
  cases text with
  | nil => rfl
  | cons second others =>
      cases isAlsoBlank : isSpace second with
      | true => rw [reads_space_run isAlsoBlank, List.dropWhile_cons_of_pos isAlsoBlank]
      | false => rw [List.dropWhile_cons_of_neg (by simp [isAlsoBlank])]

theorem reads_space_comment (noStar : '*' ∉ text.head?) :
    space.Reads ('%' :: text) left (fun _ => True) ↔
      space.Reads (text.dropWhile isInLine) left fun _ => True := by
  have noBlank : (takeWhile1 isSpace .spaces).Rejects ('%' :: text) :=
    rejects_takeWhile1 _ (by simp [isSpace])
  apply reads_space_iff_of_item
  · exact .firstOf (.tail (.bind noBlank) (.head (unfinished_of_noStar noStar).reads_comment))
  · exact Nat.lt_succ_of_le (List.dropWhile_suffix isInLine).length_le

/-- Space that ends with the text goes on behind a line feed; other space stays as it is. -/
theorem reads_space_append {more target : List Char}
    (reads : space.Reads text left fun _ => True) (noBlock : ¬ ['%', '*'] <:+: text)
    (goesOn : space.Reads (left ++ '\n' :: more) target fun _ => True) :
    space.Reads (text ++ '\n' :: more) target fun _ => True := by
  induction size : text.length using Nat.strongRecOn generalizing text with
  | ind size inductionHypothesis =>
      subst size
      cases text with
      | nil =>
          have nothing : Solid [] := nofun
          rw [← reads.left_unique nothing.reads_no_space]
          exact goesOn
      | cons first others =>
          have noBlockBehind := noBlock_of_suffix noBlock (List.suffix_cons _ _)
          rw [List.cons_append]
          cases isBlank : isSpace first with
          | true =>
              rw [reads_space_blank isBlank] at reads ⊢
              exact inductionHypothesis _ (Nat.lt_succ_self _) reads noBlockBehind rfl
          | false =>
              by_cases isSign : first = '%'
              · subst isSign
                have noStar := noStar_of_noBlock noBlock
                have stillNoStar : '*' ∉ (others ++ '\n' :: more).head? := by
                  cases others with
                  | nil => exact fun isStar => nomatch isStar
                  | cons second others => exact noStar
                have isSuffix := @List.dropWhile_suffix _ others isInLine
                -- The comment ends at the line feed at the latest.
                rw [reads_space_comment noStar] at reads
                rw [reads_space_comment stillNoStar, dropWhile_append (by simp [isInLine])]
                exact inductionHypothesis _ (Nat.lt_succ_of_le isSuffix.length_le) reads
                  (noBlock_of_suffix noBlockBehind isSuffix) rfl
              · have solid : Solid (first :: others) := solid_cons isBlank isSign
                rw [← List.cons_append, ← reads.left_unique solid.reads_no_space]
                exact goesOn

end Space

/-! Passages at another place. -/

section Moved

variable {cursor start behind next last : Cursor} {found : Statement} {content : Program}

/-- The same statement, read `distance` bytes further behind. -/
structure Moved (distance : Nat) (found again : Statement) : Prop where
  same : found.erase = again.erase
  origin : again.origin = found.origin.map (Span.moved distance)

theorem read_moved {α : Type} {parser : Parser α} {good : α → Prop} {value : α}
    {text rest : List Char} (accepted : parser.read cursor = .accept value next)
    (isText : cursor.rest = text ++ next.rest) (reads : parser.Reads (text ++ rest) rest good)
    (distance : Nat) :
    ∃ again, parser.read ⟨cursor.offset + distance, text ++ rest⟩ =
      .accept again ⟨next.offset + distance, rest⟩ ∧ good again := by
  obtain ⟨again, stop, isRead, isGood⟩ := reads (cursor.offset + distance)
  have isStop : stop = cursor.offset + distance + Source.byteLength text :=
    Cursor.offset_of_le (le_of_read isRead) rfl
  have isNext := Cursor.offset_of_le (le_of_read accepted) isText
  have sameStop : stop = next.offset + distance := by omega
  rw [sameStop] at isRead
  exact ⟨again, isRead, isGood⟩

theorem read_space_moved (spaced : space.read cursor = .accept () start) (distance : Nat) :
    space.read ⟨cursor.offset + distance, cursor.rest⟩ =
      .accept () ⟨start.offset + distance, start.rest⟩ := by
  obtain ⟨-, gap, isGap, reads⟩ := answers_space _ _ _ spaced
  obtain ⟨_, isSpaced, -⟩ := read_moved spaced isGap (reads _ (List.prefix_refl _)) distance
  rw [isGap]
  exact isSpaced

/-- The origin of a statement tells where it was read. -/
theorem read_statement_moved {text rest : List Char}
    (accepted : statement.read start = .accept found behind)
    (isText : start.rest = text ++ behind.rest)
    (reads : statement.Reads (text ++ rest) rest fun again => found.erase = again.erase)
    (distance : Nat) :
    ∃ again, statement.read ⟨start.offset + distance, text ++ rest⟩ =
      .accept again ⟨behind.offset + distance, rest⟩ ∧ Moved distance found again := by
  obtain ⟨again, isRead, same⟩ := read_moved accepted isText reads distance
  refine ⟨again, isRead, same, ?_⟩
  rw [answers_statement_origin _ _ _ accepted, answers_statement_origin _ _ _ isRead]
  rfl

/-- A text is read at another place as it is read here. -/
theorem Passage.moved (passage : Passage cursor content last) (distance : Nat) :
    ∃ again, Passage ⟨cursor.offset + distance, cursor.rest⟩ again
      ⟨last.offset + distance, last.rest⟩ ∧ List.Forall₂ (Moved distance) content again := by
  induction passage with
  | finish spaced => exact ⟨[], .finish (read_space_moved spaced distance), .nil⟩
  | @step _ start behind _ found _ spaced accepted _ inductionHypothesis =>
      obtain ⟨text, isText⟩ := text_of_read accepted
      have reads : statement.Reads (text ++ behind.rest) behind.rest fun again =>
          found.erase = again.erase := by
        obtain ⟨offset, _⟩ := start
        cases isText
        exact (reads_statement_of_part accepted (List.prefix_refl _) fun _ => .inr rfl).imp
          fun _ same => same fun _ => rfl
      obtain ⟨again, isRead, isMoved⟩ := read_statement_moved accepted isText reads distance
      obtain ⟨others, further, areMoved⟩ := inductionHypothesis
      rw [← isText] at isRead
      exact ⟨again :: others, .step (read_space_moved spaced distance) isRead further,
        .cons isMoved areMoved⟩

end Moved

/-! Passages that go on. -/

section Append

variable {cursor start behind last final : Cursor} {found : Statement} {content others : Program}
  {more : List Char}

theorem reads_of_space (spaced : space.read cursor = .accept () start) :
    space.Reads cursor.rest start.rest fun _ => True :=
  ((parallel_space .same).reads spaced).imp fun _ _ => trivial

/-- Space between statements. -/
theorem read_space_append (spaced : space.read cursor = .accept () start)
    (noBlock : ¬ ['%', '*'] <:+: cursor.rest) (nonempty : start.rest ≠ []) :
    space.read ⟨cursor.offset, cursor.rest ++ '\n' :: more⟩ =
      .accept () ⟨start.offset, start.rest ++ '\n' :: more⟩ := by
  obtain ⟨solid, gap, isGap, -⟩ := answers_space _ _ _ spaced
  have stays := (solid.append nonempty ('\n' :: more)).reads_no_space
  have reads := reads_space_append (reads_of_space spaced) noBlock stays
  rw [isGap, List.append_assoc] at reads ⊢
  obtain ⟨_, isSpaced, -⟩ := read_moved spaced isGap reads 0
  exact isSpaced

/-- Space at the end of the text leads to the space behind it. -/
theorem read_space_append_end (spaced : space.read cursor = .accept () last)
    (isEnd : last.rest = []) (noBlock : ¬ ['%', '*'] <:+: cursor.rest) :
    space.read ⟨cursor.offset, cursor.rest ++ '\n' :: more⟩ =
      space.read ⟨last.offset + 1, more⟩ := by
  obtain ⟨start, isSpaced⟩ := read_space ⟨last.offset + 1, more⟩
  have inFront : space.Reads ('\n' :: more) start.rest fun _ => True :=
    (reads_space_blank rfl).mpr (reads_of_space isSpaced)
  have ends := reads_of_space spaced
  rw [isEnd] at ends
  obtain ⟨_, stop, isRead, -⟩ := reads_space_append ends noBlock inFront cursor.offset
  obtain ⟨gap, isGap⟩ := text_of_read isSpaced
  change more = gap ++ start.rest at isGap
  subst isGap
  have isLast : last.offset = cursor.offset + Source.byteLength cursor.rest :=
    Cursor.offset_of_le (le_of_read spaced) (by rw [isEnd, List.append_nil])
  have isStart : start.offset = last.offset + 1 + Source.byteLength gap :=
    Cursor.offset_of_le (le_of_read isSpaced) rfl
  have isStop : stop = cursor.offset + Source.byteLength (cursor.rest ++ '\n' :: gap) :=
    Cursor.offset_of_le (le_of_read isRead) (by simp)
  have line : Source.byteLength ('\n' :: gap) = 1 + Source.byteLength gap := rfl
  have sameStop : stop = start.offset := by
    rw [isStop, isStart, isLast, Source.byteLength_append, line]
    omega
  rw [isRead, isSpaced, sameStop]

theorem Passage.of_space {other : Cursor} (passage : Passage cursor content last)
    (sameSpace : space.read other = space.read cursor) : Passage other content last := by
  cases passage with
  | finish spaced => exact .finish (sameSpace.trans spaced)
  | step spaced accepted further => exact .step (sameSpace.trans spaced) accepted further

/-- A passage to the end of a text leads on through the lines that follow. -/
theorem Passage.append (passage : Passage cursor content last) (isEnd : last.rest = [])
    (noBlock : ¬ ['%', '*'] <:+: cursor.rest)
    (further : Passage ⟨last.offset + 1, more⟩ others final) :
    ∃ again, Passage ⟨cursor.offset, cursor.rest ++ '\n' :: more⟩ (again ++ others) final ∧
      List.Forall₂ (Moved 0) content again := by
  induction passage with
  | finish spaced =>
      exact ⟨[], further.of_space (read_space_append_end spaced isEnd noBlock), .nil⟩
  | @step cursor start behind last found content spaced accepted passage inductionHypothesis =>
      obtain ⟨gap, isGap⟩ := text_of_read spaced
      obtain ⟨text, isText⟩ := text_of_read accepted
      have noBlockInside : ¬ ['%', '*'] <:+: start.rest :=
        noBlock_of_suffix noBlock ⟨gap, isGap.symm⟩
      have noBlockBehind : ¬ ['%', '*'] <:+: behind.rest :=
        noBlock_of_suffix noBlockInside ⟨text, isText.symm⟩
      have nonempty : start.rest ≠ [] := by
        intro nothing
        have shorter := consumes_statement start found behind accepted
        rw [nothing] at shorter
        exact absurd shorter (Nat.not_lt_zero _)
      have reads : statement.Reads (text ++ (behind.rest ++ '\n' :: more))
          (behind.rest ++ '\n' :: more) fun again => found.erase = again.erase := by
        obtain ⟨offset, _⟩ := start
        cases isText
        exact reads_statement_of_more accepted noBlockInside (passage.head_ne_period isEnd) more
      obtain ⟨again, isRead, isMoved⟩ := read_statement_moved accepted isText reads 0
      obtain ⟨others, isPassage, areMoved⟩ := inductionHypothesis isEnd noBlockBehind further
      rw [← List.append_assoc, ← isText] at isRead
      exact ⟨again :: others, .step (read_space_append spaced noBlock nonempty) isRead isPassage,
        .cons isMoved areMoved⟩

theorem Passage.read_program (passage : Passage cursor content last) (isEnd : last.rest = []) :
    program.read cursor = .accept content last := by
  induction passage with
  | finish spaced => exact read_program_at_end spaced isEnd
  | step spaced accepted _ inductionHypothesis =>
      rw [read_program_of_accept spaced accepted, read_bind, inductionHypothesis isEnd]
      rfl

theorem parse_of_passage {text : List Char} (passage : Passage (.start text) content last)
    (isEnd : last.rest = []) : Program.parse text = .ok content := by
  rw [Program.parse, Parser.run, passage.read_program isEnd]
  simp only [isEnd, List.isEmpty_nil, if_true]

end Append

end Grammar

open SoftRules.Parser SoftRules.Grammar

theorem Program.same_of_moved {distance : Nat} {content again : Program}
    (areMoved : List.Forall₂ (Moved distance) content again) :
    again.map Statement.erase = content.map Statement.erase ∧
      again.map Statement.origin =
        content.map fun statement => statement.origin.map (Span.moved distance) := by
  induction areMoved with
  | nil => exact ⟨rfl, rfl⟩
  | cons isMoved _ inductionHypothesis =>
      constructor
      · rw [List.map_cons, List.map_cons, isMoved.same, inductionHypothesis.1]
      · rw [List.map_cons, List.map_cons, isMoved.origin, inductionHypothesis.2]

/-- Two programs in a row are one program, if no block comment is opened in the first one. -/
theorem Program.parse_append_line {first second : List Char} {program others : Program}
    (parsed : Program.parse first = .ok program) (alsoParsed : Program.parse second = .ok others)
    (noBlock : ¬ ['%', '*'] <:+: first) :
    ∃ whole, Program.parse (first ++ '\n' :: second) = .ok whole ∧
      whole.same (program ++ others) = true ∧
      whole.map Statement.origin = program.map Statement.origin ++
        others.map fun statement =>
          statement.origin.map (Span.moved (Source.byteLength first + 1)) := by
  obtain ⟨last, passage, isEnd⟩ := passage_of_parse parsed
  obtain ⟨final, alsoPassage, isFinal⟩ := passage_of_parse alsoParsed
  have isLast : last.offset = 0 + Source.byteLength first :=
    Cursor.offset_of_le passage.le (by rw [isEnd, List.append_nil]; rfl)
  -- The second program starts behind the first one and the line feed.
  obtain ⟨moved, further, areMoved⟩ := alsoPassage.moved (last.offset + 1)
  rw [show (Cursor.start second).offset + (last.offset + 1) = last.offset + 1 from Nat.zero_add _]
    at further
  obtain ⟨again, joined, areSame⟩ := passage.append isEnd noBlock further
  obtain ⟨same, origins⟩ := Program.same_of_moved areSame
  obtain ⟨sameMoved, movedOrigins⟩ := Program.same_of_moved areMoved
  refine ⟨again ++ moved, parse_of_passage joined isFinal, ?_, ?_⟩
  · apply (Program.same_iff _ _).mpr
    rw [Program.erase, Program.erase, List.map_append, List.map_append, same, sameMoved]
  · rw [List.map_append, origins, movedOrigins, isLast, Nat.zero_add, Span.moved_zero]
    simp only [Option.map_id, id_eq]

/-- Rules, a weak constraint and a directive, with a comment at the end. -/
def Program.commented : List Char :=
  "p(\"é\"). 2 : q :- X = 1..2.:~ q. [1@2] #show p/1. % half.".toList

/-- A rule and a directive, with a block comment in front. -/
def Program.remaining : List Char := "%* é *% r(X+1).\n#const n = 3.".toList

theorem Program.parse_append_line_commented :
    ∃ program others whole, Program.parse Program.commented = .ok program ∧
      Program.parse Program.remaining = .ok others ∧ ¬ ['%', '*'] <:+: Program.commented ∧
      Program.parse (Program.commented ++ '\n' :: Program.remaining) = .ok whole ∧
      whole.same (program ++ others) = true ∧
      whole.map Statement.origin = [some ⟨0, 8⟩, some ⟨9, 27⟩, some ⟨27, 38⟩, some ⟨39, 49⟩,
        some ⟨67, 74⟩, some ⟨75, 88⟩] := by
  have succeeds : (match Program.parse Program.commented with
      | .ok program => program.map Statement.origin
      | .error _ => []) = [some ⟨0, 8⟩, some ⟨9, 27⟩, some ⟨27, 38⟩, some ⟨39, 49⟩] := by
    decide +kernel
  have alsoSucceeds : (match Program.parse Program.remaining with
      | .ok program => program.map Statement.origin
      | .error _ => []) = [some ⟨9, 16⟩, some ⟨17, 30⟩] := by
    decide +kernel
  have noBlock : ¬ ['%', '*'] <:+: Program.commented := by decide +kernel
  have isLength : Source.byteLength Program.commented = 57 := by decide +kernel
  cases parsed : Program.parse Program.commented with
  | error error =>
      rw [parsed] at succeeds
      cases succeeds
  | ok program =>
      cases alsoParsed : Program.parse Program.remaining with
      | error error =>
          rw [alsoParsed] at alsoSucceeds
          cases alsoSucceeds
      | ok others =>
          obtain ⟨whole, isWhole, same, origins⟩ :=
            Program.parse_append_line parsed alsoParsed noBlock
          refine ⟨program, others, whole, rfl, rfl, noBlock, isWhole, same, ?_⟩
          rw [parsed] at succeeds
          rw [alsoParsed] at alsoSucceeds
          change program.map Statement.origin = _ at succeeds
          have movedOrigins := congrArg (List.map (Option.map (Span.moved 58))) alsoSucceeds
          rw [List.map_map] at movedOrigins
          rw [origins, isLength, succeeds]
          exact congrArg _ movedOrigins

end SoftRules
