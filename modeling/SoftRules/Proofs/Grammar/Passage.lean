import SoftRules.Proofs.Grammar.Locality

/-!
The way through a program.

A program is read as space, a statement, space, a statement and so on, until the text ends or a
statement fails. Such a passage can be repeated on the text in front of the place that it has
reached.
-/

set_option autoImplicit false

namespace SoftRules.Grammar

open SoftRules.Parser

/-! Space. -/

theorem solid_of_rejectsAt {cursor : Cursor} (rejects : spaceItem.RejectsAt cursor) :
    Solid cursor.rest := by
  obtain ⟨offset, text⟩ := cursor
  intro first isFirst
  obtain ⟨others, rfl⟩ := List.head?_eq_some_iff.mp isFirst
  constructor
  · apply Bool.eq_false_iff.mpr
    intro isBlank
    exact not_rejectsAt_spaceItem (.inl isBlank) offset rejects
  · intro isSign
    exact not_rejectsAt_spaceItem (.inr isSign) offset rejects

/-- An item of space is read in the same way whatever part of the rest stands behind it. -/
theorem answers_spaceItem (cursor : Cursor) : spaceItem.Answers cursor fun _ next => ∃ item,
    item ≠ [] ∧ cursor.rest = item ++ next.rest ∧
      Steady spaceItem item next.rest fun _ => True := by
  refine .firstOf ⟨.bind (answers_takeWhile1 _ _ cursor) ?_, fun _ =>
    ⟨(answers_comment cursor).imp ?_, fun _ => trivial⟩⟩
  · rintro blanks next ⟨nonempty, isRun, isRest⟩
    refine .pure ⟨blanks, nonempty, ?_, fun part isPart => ?_⟩
    · rw [isRun, isRest, List.takeWhile_append_dropWhile]
    · have areBlank : ∀ blank ∈ blanks, isSpace blank = true := by
        rw [isRun]
        exact List.all_eq_true.mp List.all_takeWhile
      have stops : ∀ first ∈ part.head?, isSpace first = false := by
        intro first isFirst
        exact head_dropWhile first (isRest ▸ head?_of_part isPart isFirst)
      exact .firstOf (.head (.bind (.takeWhile1 _ nonempty areBlank stops) fun _ _ => .pure trivial))
  · rintro _ next ⟨text, isText, steady⟩
    refine ⟨'%' :: text, by simp, isText, fun part isPart => ?_⟩
    have noBlank : (takeWhile1 isSpace .spaces).Rejects ('%' :: text ++ part) :=
      rejects_takeWhile1 _ (by simp [isSpace])
    exact .firstOf (.tail (.bind noBlank) (.head (steady part isPart)))

theorem answers_spaceItems (cursor : Cursor) :
    (many spaceItem).Answers cursor fun _ next => Solid next.rest ∧ ∃ gap,
      cursor.rest = gap ++ next.rest ∧ ∀ part, part <+: next.rest →
        (many spaceItem).Reads (gap ++ part) part fun _ => True := by
  induction size : cursor.rest.length using Nat.strongRecOn generalizing cursor with
  | ind size inductionHypothesis =>
      subst size
      refine .rounds ?_ ?_
      · refine .optional (fun _ _ _ => nofun) fun rejects _ => ?_
        have solid := solid_of_rejectsAt rejects
        refine ⟨solid, [], rfl, fun part isPart => ?_⟩
        have noItem : spaceItem.Rejects part :=
          Solid.rejects_spaceItem fun first isFirst => solid first (head?_of_part isPart isFirst)
        exact (Reads.many_nil noItem).imp fun _ _ => trivial
      · refine .optional ((answers_spaceItem cursor).imp ?_) fun _ value isSome => nomatch isSome
        rintro _ next ⟨item, nonempty, isItem, steady⟩ _ ⟨⟩ shorter
        refine (inductionHypothesis _ shorter next rfl).imp ?_
        rintro _ last ⟨solid, gap, isGap, reads⟩
        refine ⟨solid, item ++ gap, by rw [isItem, isGap, List.append_assoc], fun part isPart => ?_⟩
        have first : spaceItem.Reads (item ++ (gap ++ part)) (gap ++ part) fun _ => True := by
          refine steady _ ?_
          rw [isGap]
          exact (List.prefix_append_right_inj gap).mpr isPart
        have less : (gap ++ part).length < (item ++ (gap ++ part)).length := by
          have positive := List.length_pos_iff.mpr nonempty
          rw [@List.length_append _ item]
          omega
        rw [List.append_assoc]
        exact (Reads.many_cons first less (reads part isPart)).imp fun _ _ => trivial

/-- Space ends in front of something else, and what follows it has no say in how it is read. -/
theorem answers_space (cursor : Cursor) : space.Answers cursor fun _ next => Solid next.rest ∧
    ∃ gap, cursor.rest = gap ++ next.rest ∧ ∀ part, part <+: next.rest →
      space.Reads (gap ++ part) part fun _ => True := by
  refine .bind (answers_spaceItems cursor) ?_
  rintro _ next ⟨solid, gap, isGap, reads⟩
  exact .pure ⟨solid, gap, isGap, fun part isPart => .bind (reads part isPart) fun _ _ =>
    .pure trivial⟩

/-- Without a block comment, a comment is a line. -/
theorem Unfinished.reads_comment {text : List Char} (unfinished : Unfinished text) :
    comment.Reads ('%' :: text) (text.dropWhile isInLine) fun _ => True := by
  have noBlock := unfinished.rejects_blockComment
  by_cases goesOn : ∃ first ∈ text.head?, isInLine first = true
  · obtain ⟨first, isFirst, accepted⟩ := goesOn
    obtain ⟨others, rfl⟩ := List.head?_eq_some_iff.mp isFirst
    refine .firstOf (.tail noBlock (.head (.bind (.word ['%'] _) fun _ _ => ?_)))
    exact .bind (reads_longest_run _ accepted others) fun _ _ => .pure trivial
  · have ends : ∀ first ∈ text.head?, isInLine first = false := by simpa using goesOn
    rw [dropWhile_of_head ends]
    refine .firstOf (.tail noBlock (.tail ?_ (.head (.word ['%'] text))))
    exact .after (.word ['%'] text) fun _ _ => .bind (rejects_takeWhile1 _ ends)

theorem exists_reads_comment (text : List Char) : ∃ left, left.length ≤ text.length ∧
    comment.Reads ('%' :: text) left fun _ => True := by
  by_cases unfinished : Unfinished text
  · exact ⟨_, (List.dropWhile_suffix isInLine).length_le, unfinished.reads_comment⟩
  · simp only [Unfinished, not_forall] at unfinished
    obtain ⟨others, rfl, isFinished⟩ := unfinished
    obtain ⟨part, found⟩ := Option.ne_none_iff_exists'.mp isFinished
    obtain ⟨left, rfl, stops⟩ := partBefore?_eq_some found
    obtain ⟨rest, rfl⟩ := List.isPrefixOf_iff_prefix.mp stops
    refine ⟨rest, by simp; omega, ?_⟩
    exact .firstOf (.head (reads_blockComment found))

theorem exists_reads_spaceItems (text : List Char) :
    ∃ left, (many spaceItem).Reads text left fun _ => True := by
  induction size : text.length using Nat.strongRecOn generalizing text with
  | ind size inductionHypothesis =>
      subst size
      have goOn {middle : List Char} (shorter : middle.length < text.length)
          (first : spaceItem.Reads text middle fun _ => True) :
          ∃ left, (many spaceItem).Reads text left fun _ => True := by
        obtain ⟨left, others⟩ := inductionHypothesis _ shorter middle rfl
        exact ⟨left, (Reads.many_cons first shorter others).imp fun _ _ => trivial⟩
      by_cases solid : Solid text
      · exact ⟨text, (Reads.many_nil solid.rejects_spaceItem).imp fun _ _ => trivial⟩
      · simp only [Solid, not_forall] at solid
        obtain ⟨first, isFirst, isSpaced⟩ := solid
        obtain ⟨others, rfl⟩ := List.head?_eq_some_iff.mp isFirst
        by_cases blank : isSpace first = true
        · refine goOn ?_ (.firstOf (.head (.bind (reads_longest_run _ blank others) fun _ _ =>
            .pure trivial)))
          rw [List.dropWhile_cons_of_pos blank, List.length_cons]
          exact Nat.lt_succ_of_le (List.dropWhile_suffix isSpace).length_le
        · obtain rfl : first = '%' := by
            by_contra noSign
            exact isSpaced ⟨Bool.eq_false_iff.mpr blank, noSign⟩
          obtain ⟨left, shorter, reads⟩ := exists_reads_comment others
          have noBlank : (takeWhile1 isSpace .spaces).Rejects ('%' :: others) :=
            rejects_takeWhile1 _ (by simp [isSpace])
          exact goOn (Nat.lt_succ_of_le shorter) (.firstOf (.tail (.bind noBlank) (.head reads)))

/-- Any text may stand where space is expected. -/
theorem exists_reads_space (text : List Char) : ∃ left, space.Reads text left fun _ => True := by
  obtain ⟨left, reads⟩ := exists_reads_spaceItems text
  exact ⟨left, .bind reads fun _ _ => .pure trivial⟩

/-! Statements. -/

theorem rejects_statement_period (rest : List Char) : statement.Rejects ('.' :: rest) := by
  have noHead : head.Rejects ('.' :: rest) :=
    rejects_head (by simp [isTermStart]) (by simp) (by simp) (by simp)
  have noRule : rule.Rejects ('.' :: rest) :=
    rejects_rule (rejects_weight_start (by simp) (by simp)) (rejects_arrow (by simp)) noHead
  exact .expecting _ (rejects_firstOf (.cons (.bind (rejects_directive (by simp)))
    (.cons (.bind (rejects_weakConstraint (by simp))) (.cons (.bind noRule) .nil))))

/-- What was read is attached to a component. -/
theorem answers_located {α : Type} [Located α] (parser : Parser α)
    (keeps : ∀ origin (value : α), Located.origin (Located.relocate origin value) = origin)
    (cursor : Cursor) : (located parser).Answers cursor fun value next =>
      Located.origin value = some ⟨cursor.offset, next.offset⟩ := by
  intro value next accepted
  obtain ⟨found, -, rfl⟩ := located_accepts.mp accepted
  exact keeps _ found

theorem answers_statement_origin (cursor : Cursor) : statement.Answers cursor fun found next =>
    found.origin = some ⟨cursor.offset, next.offset⟩ := by
  refine .expecting _ (.firstOf ⟨.bind (answers_located _ (fun _ _ => rfl) cursor) ?_, fun _ =>
    ⟨.bind (answers_located _ (fun _ _ => rfl) cursor) ?_, fun _ =>
      ⟨.bind (answers_located _ (fun _ _ => rfl) cursor) ?_, fun _ => trivial⟩⟩⟩)
  all_goals exact fun _ _ isOrigin => .pure isOrigin

theorem consumes_directive : directive.Consumes :=
  .located (.explain _ (.after fun _ => .bind (consumes_token (by decide))))

theorem consumes_weakConstraint : weakConstraint.Consumes :=
  .located (.explain _ (.bind (consumes_token (by decide))))

theorem consumes_rule : rule.Consumes := by
  refine .located (.explain _ (.after fun _ => .after ?_))
  rintro ⟨head, body⟩
  exact .after fun _ => .bind (consumes_token (by decide))

theorem consumes_statement : statement.Consumes :=
  .explain _ (consumes_firstOf ⟨.bind consumes_directive, .bind consumes_weakConstraint,
    .bind consumes_rule⟩)

/-! Programs. -/

/-- Space, statements with space between them, and space: all of it is read, from the first place to
the last one. -/
inductive Passage : Cursor → Program → Cursor → Prop
  | finish {cursor last : Cursor} (spaced : space.read cursor = .accept () last) :
      Passage cursor [] last
  | step {cursor start behind last : Cursor} {found : Statement} {others : Program}
      (spaced : space.read cursor = .accept () start)
      (accepted : statement.read start = .accept found behind)
      (further : Passage behind others last) : Passage cursor (found :: others) last

/-- The passage does not lead further: there is something left that is no statement. -/
structure Stuck (cursor : Cursor) (error : ParseError) : Prop where
  nonempty : cursor.rest ≠ []
  fails : ∀ found next, statement.read cursor ≠ .accept found next
  isExpected : error.outer = ⟨.expected .statement, cursor.offset⟩

theorem read_space (cursor : Cursor) : ∃ next, space.read cursor = .accept () next := by
  obtain ⟨left, reads⟩ := exists_reads_space cursor.rest
  obtain ⟨_, stop, accepted, -⟩ := reads cursor.offset
  exact ⟨_, accepted⟩

theorem stuck_of_fails {cursor : Cursor} {error : ParseError} (nonempty : cursor.rest ≠ [])
    (fails : statement.read cursor = .reject error ∨ statement.read cursor = .abort error) :
    Stuck cursor error where
  nonempty := nonempty
  fails := by
    intro found next accepted
    rw [accepted] at fails
    obtain rejected | aborted := fails
    · cases rejected
    · cases aborted
  isExpected := by
    simp only [statement, expecting, explain] at fails
    split at fails
    · obtain rejected | aborted := fails
      · cases rejected
      · cases aborted
    · obtain rejected | aborted := fails
      · cases rejected
        rfl
      · cases aborted
    · obtain rejected | aborted := fails
      · cases rejected
      · cases aborted
        rfl

/-- One statement of a program, or the end of the text. -/
def programRound : Parser (Option Statement) := do
  if ← atEnd then return none
  return some (← programStatement)

section Program

variable {cursor start : Cursor}

theorem read_program (spaced : space.read cursor = .accept () start) :
    program.read cursor = (rounds programRound).read start := by
  rw [program, read_bind, spaced]
  rfl

theorem read_programRound (nonempty : start.rest ≠ []) : programRound.read start =
    (do return some (← programStatement) : Parser (Option Statement)).read start := by
  have noEnd : start.rest.isEmpty = false := by simpa using nonempty
  simp only [programRound, atEnd, read_bind, Parser.rest, read_pure, noEnd]
  rfl

theorem read_program_at_end (spaced : space.read cursor = .accept () start)
    (isEnd : start.rest = []) : program.read cursor = .accept [] start := by
  have nothing : programRound.read start = .accept none start := by
    simp only [programRound, atEnd, read_bind, Parser.rest, read_pure, isEnd]
    rfl
  rw [read_program spaced, read_rounds, nothing]

theorem read_program_of_accept {behind : Cursor} {found : Statement}
    (spaced : space.read cursor = .accept () start)
    (accepted : statement.read start = .accept found behind) :
    program.read cursor =
      (program >>= fun others => pure (found :: others) : Parser Program).read behind := by
  obtain ⟨next, isSpaced⟩ := read_space behind
  have shorter := consumes_statement start found behind accepted
  have nonempty : start.rest ≠ [] := by
    intro nothing
    rw [nothing] at shorter
    exact absurd shorter (Nat.not_lt_zero _)
  have committed : (commit statement).read start = .accept found behind := by
    simp only [commit, recover, accepted]
  have isRound : programRound.read start = .accept (some found) next := by
    rw [read_programRound nonempty, read_bind, programStatement, read_bind, committed]
    simp only [read_bind, isSpaced, read_pure]
  have further : start.offset < next.offset := by
    refine Cursor.offset_lt_of_length_lt (le_of_read isRound) ?_
    exact Nat.lt_of_le_of_lt (length_le_of_read isSpaced) shorter
  rw [read_program spaced, read_rounds_of_some isRound further, read_bind, read_bind,
    read_program isSpaced]

theorem read_program_of_fails {error : ParseError} (spaced : space.read cursor = .accept () start)
    (nonempty : start.rest ≠ [])
    (fails : statement.read start = .reject error ∨ statement.read start = .abort error) :
    program.read cursor = .abort error := by
  have committed : (commit statement).read start = .abort error := by
    obtain rejected | aborted := fails
    · simp only [commit, recover, rejected, Parser.abort]
    · simp only [commit, recover, aborted]
  have isRound : programRound.read start = .abort error := by
    rw [read_programRound nonempty, read_bind, programStatement, read_bind, committed]
  rw [read_program spaced, read_rounds, isRound]

end Program

/-- A program is read up to the end of the text, or up to something that is no statement. -/
inductive Finished (cursor : Cursor) : Outcome Program → Prop
  | ends {program : Program} {last : Cursor} (passage : Passage cursor program last)
      (isEnd : last.rest = []) : Finished cursor (.accept program last)
  | stuck {program : Program} {last : Cursor} {error : ParseError}
      (passage : Passage cursor program last) (isStuck : Stuck last error) :
      Finished cursor (.abort error)

theorem Finished.step {cursor start behind : Cursor} {found : Statement}
    (spaced : space.read cursor = .accept () start)
    (accepted : statement.read start = .accept found behind)
    (finished : Finished behind (program.read behind)) :
    Finished cursor (program.read cursor) := by
  rw [read_program_of_accept spaced accepted, read_bind]
  generalize program.read behind = outcome at finished ⊢
  cases finished with
  | ends passage isEnd => exact .ends (.step spaced accepted passage) isEnd
  | stuck passage isStuck => exact .stuck (.step spaced accepted passage) isStuck

theorem finished_program (cursor : Cursor) : Finished cursor (program.read cursor) := by
  induction size : cursor.rest.length using Nat.strongRecOn generalizing cursor with
  | ind size inductionHypothesis =>
      subst size
      obtain ⟨start, spaced⟩ := read_space cursor
      by_cases isEnd : start.rest = []
      · rw [read_program_at_end spaced isEnd]
        exact .ends (.finish spaced) isEnd
      · cases read : statement.read start with
        | accept found behind =>
            have shorter := consumes_statement start found behind read
            have notLonger := length_le_of_read spaced
            exact .step spaced read (inductionHypothesis _ (by omega) behind rfl)
        | reject error =>
            rw [read_program_of_fails spaced isEnd (.inl read)]
            exact .stuck (.finish spaced) (stuck_of_fails isEnd (.inl read))
        | abort error =>
            rw [read_program_of_fails spaced isEnd (.inr read)]
            exact .stuck (.finish spaced) (stuck_of_fails isEnd (.inr read))

theorem passage_of_parse {text : List Char} {content : Program}
    (parsed : Program.parse text = .ok content) :
    ∃ last, Passage (.start text) content last ∧ last.rest = [] := by
  have finished := finished_program (.start text)
  rw [Program.parse, Parser.run] at parsed
  generalize program.read (.start text) = outcome at finished parsed
  cases finished with
  | ends passage isEnd =>
      simp only [isEnd, List.isEmpty_nil, if_true] at parsed
      cases parsed
      exact ⟨_, passage, isEnd⟩
  | stuck _ _ => cases parsed

theorem passage_of_parse_error {text : List Char} {error : ParseError}
    (failed : Program.parse text = .error error) :
    ∃ content last, Passage (.start text) content last ∧ Stuck last error := by
  have finished := finished_program (.start text)
  rw [Program.parse, Parser.run] at failed
  generalize program.read (.start text) = outcome at finished failed
  cases finished with
  | ends _ isEnd =>
      simp only [isEnd, List.isEmpty_nil, if_true] at failed
      cases failed
  | stuck passage isStuck =>
      cases failed
      exact ⟨_, _, passage, isStuck⟩

/-! Shorter texts. -/

section Parts

variable {cursor start behind last : Cursor} {found : Statement} {content : Program}

theorem Passage.le (passage : Passage cursor content last) : cursor ≤ last := by
  induction passage with
  | finish spaced => exact le_of_read spaced
  | step spaced accepted _ inductionHypothesis =>
      exact Cursor.le_trans (le_of_read spaced)
        (Cursor.le_trans (le_of_read accepted) inductionHypothesis)

/-- No statement follows where a period is left. -/
theorem Passage.rest_of_period (passage : Passage cursor content last)
    (isPeriod : cursor.rest.head? = some '.') : last.rest = cursor.rest := by
  have stays {start : Cursor} (spaced : space.read cursor = .accept () start) :
      start.rest = cursor.rest :=
    ((solid_of_period isPeriod).reads_no_space.answers cursor.offset _ _ spaced).2
  cases passage with
  | finish spaced => exact stays spaced
  | @step _ start _ _ _ _ spaced accepted _ =>
      obtain ⟨rest, isRest⟩ := List.head?_eq_some_iff.mp isPeriod
      have isStart : start = ⟨start.offset, '.' :: rest⟩ := by rw [← isRest, ← stays spaced]
      obtain ⟨error, rejected⟩ := rejects_statement_period rest start.offset
      rw [isStart, rejected] at accepted
      cases accepted

/-- At the end of the text, no period is left behind a statement. -/
theorem Passage.head_ne_period (passage : Passage cursor content last) (isEnd : last.rest = []) :
    cursor.rest.head? ≠ some '.' := by
  intro isPeriod
  rw [← passage.rest_of_period isPeriod, isEnd] at isPeriod
  cases isPeriod

/-- A statement of the passage, on the text that is left if the rest of the text is cut off behind
the passage. -/
theorem Passage.reads_statement {text part : List Char} (passage : Passage behind content last)
    (accepted : statement.read start = .accept found behind)
    (isText : start.rest = text ++ behind.rest) (isPart : behind.rest = part ++ last.rest) :
    statement.Reads (text ++ part) part fun _ => True := by
  obtain ⟨offset, _⟩ := start
  cases isText
  refine (reads_statement_of_part accepted ⟨last.rest, isPart.symm⟩ fun isPeriod => ?_).imp
    fun _ _ => trivial
  -- A second period stays behind: nothing was read there.
  have isLast := passage.rest_of_period isPeriod
  rw [isLast] at isPart
  exact .inl (List.self_eq_append_left.mp isPart)

/-- The text of a passage is a program. -/
theorem Passage.reads (passage : Passage cursor content last) {text : List Char}
    (isText : cursor.rest = text ++ last.rest) : program.Reads text [] fun _ => True := by
  induction passage generalizing text with
  | finish spaced =>
      obtain ⟨-, gap, isGap, reads⟩ := answers_space _ _ _ spaced
      obtain rfl : gap = text := List.append_cancel_right (isGap.symm.trans isText)
      intro offset
      obtain ⟨_, stop, isSpaced, -⟩ := reads [] List.nil_prefix offset
      rw [List.append_nil] at isSpaced
      exact ⟨[], stop, read_program_at_end isSpaced rfl, trivial⟩
  | step spaced accepted passage inductionHypothesis =>
      obtain ⟨-, gap, isGap, reads⟩ := answers_space _ _ _ spaced
      obtain ⟨statementText, isStatement⟩ := text_of_read accepted
      obtain ⟨others, isOthers⟩ := Cursor.text_of_le passage.le
      have isRest := isStatement
      rw [isOthers, ← List.append_assoc] at isRest
      obtain rfl : gap ++ (statementText ++ others) = text := by
        apply List.append_cancel_right
        rw [← isText, isGap, isRest, List.append_assoc]
      intro offset
      obtain ⟨_, start, isSpaced, -⟩ := reads (statementText ++ others) ⟨_, isRest.symm⟩ offset
      obtain ⟨found, behind, isAccepted, -⟩ :=
        passage.reads_statement accepted isStatement isOthers start
      obtain ⟨content, stop, isRead, -⟩ := inductionHypothesis isOthers behind
      refine ⟨found :: content, stop, ?_, trivial⟩
      rw [read_program_of_accept isSpaced isAccepted, read_bind, isRead]
      rfl

/-- A statement on its own, where no second period follows it. -/
theorem parse_statement {text : List Char} (solid : Solid start.rest)
    (accepted : statement.read start = .accept found behind)
    (isText : start.rest = text ++ behind.rest) (noPeriod : behind.rest.head? ≠ some '.') :
    ∃ again, Statement.parse text = .ok again ∧ again.same found = true := by
  obtain ⟨offset, _⟩ := start
  cases isText
  have reads := reads_statement_of_part accepted List.nil_prefix
    fun isPeriod => absurd isPeriod noPeriod
  rw [List.append_nil] at reads
  have isSolid : Solid text := fun first isFirst =>
    solid first (head?_of_part (List.prefix_append _ _) isFirst)
  have nothing : Solid [] := nofun
  have single : singleStatement.Reads text [] fun again => again.same found = true := by
    refine .bind isSolid.reads_no_space fun _ _ => .bind reads fun again same => ?_
    refine .bind nothing.reads_no_space fun _ _ => .pure ?_
    exact (Statement.same_iff _ _).mpr (same fun isPeriod => absurd isPeriod noPeriod).symm
  exact single.run

end Parts

end SoftRules.Grammar
