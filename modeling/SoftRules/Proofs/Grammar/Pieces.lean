import SoftRules.Proofs.Grammar.Lexeme
import SoftRules.Proofs.Grammar.Recursion
import SoftRules.Proofs.Parser.Acceptance

/-!
How an accepted text falls into pieces.

Outside of comments and quoted texts a character is either read for itself, or it is a bracket or
a period. Brackets come in pairs, and two periods in a row are the operator of intervals. A parser
spans pieces if every text that it accepts is a sequence of them.
-/

set_option autoImplicit false

namespace SoftRules.Grammar

open SoftRules.Parser

/-! Comments and quoted texts. -/

section Lexemes

variable {text rest part : List Char}

/-- Where a word does not occur, it does not occur in the first part of the text either. -/
theorem partBefore?_eq_none_of_part {word : List Char}
    (absent : partBefore? word.isPrefixOf text = none) (isPart : part <+: text) :
    partBefore? word.isPrefixOf part = none := by
  induction text generalizing part with
  | nil =>
      rw [List.prefix_nil.mp isPart]
      exact absent
  | cons first others inductionHypothesis =>
      simp only [partBefore?] at absent
      split at absent
      · cases absent
      · next noStart =>
          have absentBehind := Option.map_eq_none_iff.mp absent
          cases part with
          | nil =>
              have refused : word.isPrefixOf ([] : List Char) = false := by
                cases word with
                | nil => exact absurd rfl noStart
                | cons _ _ => rfl
              simp [partBefore?, refused]
          | cons other part =>
              obtain ⟨rfl, isBehind⟩ := List.cons_prefix_cons.mp isPart
              have refused : ¬ word.isPrefixOf (other :: part) = true := by
                intro starts
                apply noStart
                apply List.isPrefixOf_iff_prefix.mpr
                exact (List.isPrefixOf_iff_prefix.mp starts).trans isPart
              rw [partBefore?, if_neg refused, inductionHypothesis absentBehind isBehind]
              rfl

/-- The end of a comment is found whatever stands behind it. -/
theorem partBefore?_terminator
    (found : partBefore? ['*', '%'].isPrefixOf (part ++ '*' :: '%' :: rest) = some part)
    (other : List Char) :
    partBefore? ['*', '%'].isPrefixOf (part ++ '*' :: '%' :: other) = some part := by
  induction part with
  | nil => rfl
  | cons first part inductionHypothesis =>
      rw [List.cons_append, partBefore?] at found ⊢
      split at found
      · cases found
      · next noStop =>
          obtain ⟨behind, isBehind, same⟩ := Option.map_eq_some_iff.mp found
          cases same
          have noStopBefore :
              ¬ ['*', '%'].isPrefixOf (first :: (part ++ '*' :: '%' :: other)) = true := by
            cases part with
            | nil => simp
            | cons second part => simpa using noStop
          rw [if_neg noStopBefore, inductionHypothesis isBehind]
          rfl

/-- The parser reads the text in the same way whatever part of the rest stands behind it. -/
def Steady {α : Type} (parser : Parser α) (text rest : List Char) (good : α → Prop) : Prop :=
  ∀ part, part <+: rest → parser.Reads (text ++ part) part good

def blockComment : Parser Unit := do
  word ['%', '*']
  let _ ← takeUntil ['*', '%'].isPrefixOf (.mismatch .terminator)
  word ['*', '%']

def lineComment : Parser Unit := do
  word ['%']
  let _ ← takeWhile1 (fun character => character != '\n' && character != '\r') .noneOf

theorem comment_eq : comment = firstOf [blockComment, lineComment, word ['%']] := rfl

theorem reads_blockComment
    (found : partBefore? ['*', '%'].isPrefixOf (part ++ '*' :: '%' :: rest) = some part) :
    blockComment.Reads ('%' :: '*' :: (part ++ '*' :: '%' :: rest)) rest fun _ => True :=
  .bind (.word ['%', '*'] _) fun _ _ => .bind (.takeUntil _ found) fun _ _ => .word ['*', '%'] _

/-- Behind the first character of a comment, no block comment starts that has an end. -/
def Unfinished (text : List Char) : Prop :=
  ∀ others, text = '*' :: others → partBefore? ['*', '%'].isPrefixOf others = none

theorem Unfinished.rejects_blockComment (unfinished : Unfinished text) :
    blockComment.Rejects ('%' :: text) := by
  by_cases starts : ['%', '*'] <+: '%' :: text
  · obtain ⟨others, isText⟩ := starts
    cases isText
    apply Rejects.after (.word ['%', '*'] others)
    intro _ _
    apply Rejects.bind
    intro offset
    have absent := unfinished others rfl
    simp only [takeUntil, read_bind, Parser.rest, absent]
    exact rejects_fail _ _ offset
  · exact .bind (rejects_word starts)

theorem unfinished_of_rejectsAt {offset : Nat}
    (rejects : blockComment.RejectsAt ⟨offset, '%' :: text⟩) : Unfinished text := by
  rintro others rfl
  cases found : partBefore? ['*', '%'].isPrefixOf others with
  | none => rfl
  | some part =>
      obtain ⟨left, rfl, stops⟩ := partBefore?_eq_some found
      obtain ⟨rest, rfl⟩ := List.isPrefixOf_iff_prefix.mp stops
      exact absurd rejects (reads_blockComment found).not_rejectsAt

theorem Unfinished.of_part (unfinished : Unfinished text) (isPart : part <+: text) :
    Unfinished part := by
  rintro others rfl
  obtain ⟨rest, rfl⟩ := isPart
  exact partBefore?_eq_none_of_part (unfinished _ rfl) (List.prefix_append _ _)

end Lexemes

/-- Whether a line comment goes on. -/
def isInLine (character : Char) : Bool := character != '\n' && character != '\r'

theorem head?_of_part {part rest : List Char} (isPart : part <+: rest) {first : Char}
    (isFirst : first ∈ part.head?) : first ∈ rest.head? := by
  obtain ⟨behind, rfl⟩ := isPart
  obtain ⟨others, rfl⟩ := List.head?_eq_some_iff.mp isFirst
  rfl

theorem reads_longest_run {accepts : Char → Bool} (kind : Mismatch) {first : Char}
    (accepted : accepts first = true) (others : List Char) :
    (takeWhile1 accepts kind).Reads (first :: others) ((first :: others).dropWhile accepts)
      (· = (first :: others).takeWhile accepts) := by
  have reads := @Reads.takeWhile1 accepts ((first :: others).dropWhile accepts) kind
    ((first :: others).takeWhile accepts) (by simp [accepted])
    (List.all_eq_true.mp List.all_takeWhile) head_dropWhile
  rwa [List.takeWhile_append_dropWhile] at reads

theorem answers_blockComment (cursor : Cursor) :
    blockComment.Answers cursor fun _ next => ∃ text, cursor.rest = '%' :: (text ++ next.rest) ∧
      Steady comment ('%' :: text) next.rest fun _ => True := by
  refine .bind (answers_word cursor _) ?_
  intro _ middle opens
  refine .bind (answers_takeUntil middle _ _) ?_
  intro part behind found
  refine (answers_word behind _).imp ?_
  intro _ next closes
  have isFound := found.1
  rw [found.2, closes] at isFound
  refine ⟨'*' :: (part ++ ['*', '%']), ?_, ?_⟩
  · simp [opens, found.2, closes]
  · intro other _
    have shape : '%' :: '*' :: (part ++ ['*', '%']) ++ other =
        '%' :: '*' :: (part ++ '*' :: '%' :: other) := by simp
    rw [shape, comment_eq]
    exact .firstOf (.head (reads_blockComment (partBefore?_terminator isFound other)))

theorem answers_lineComment (cursor : Cursor) (noBlock : blockComment.RejectsAt cursor) :
    lineComment.Answers cursor fun _ next => ∃ text, cursor.rest = '%' :: (text ++ next.rest) ∧
      Steady comment ('%' :: text) next.rest fun _ => True := by
  refine .bind (answers_word cursor _) ?_
  intro _ middle opens
  refine .bind (answers_takeWhile1 isInLine _ middle) ?_
  intro line next found
  obtain ⟨nonempty, isLine, isRest⟩ := found
  have text : middle.rest = line ++ next.rest := by
    rw [isLine, isRest, List.takeWhile_append_dropWhile]
  have isCursor : cursor = ⟨cursor.offset, '%' :: (line ++ next.rest)⟩ := by
    rw [← text, ← List.singleton_append, ← opens]
  rw [isCursor] at noBlock
  have unfinished := unfinished_of_rejectsAt noBlock
  refine .pure ⟨line, by rw [opens, text]; rfl, ?_⟩
  intro part isPart
  have noStart : blockComment.Rejects ('%' :: (line ++ part)) :=
    (unfinished.of_part ((List.prefix_append_right_inj line).mpr isPart)).rejects_blockComment
  have ends : ∀ first ∈ part.head?, isInLine first = false := by
    intro first isFirst
    exact head_dropWhile first (isRest ▸ head?_of_part isPart isFirst)
  have accepted : ∀ character ∈ line, isInLine character = true := by
    rw [isLine]
    exact List.all_eq_true.mp List.all_takeWhile
  rw [comment_eq]
  refine .firstOf (.tail noStart (.head (.bind (.word ['%'] _) fun _ _ => ?_)))
  exact .bind (.takeWhile1 _ nonempty accepted ends) fun _ _ => .pure trivial

/-- A comment is read in the same way whatever follows its end. -/
theorem answers_comment (cursor : Cursor) :
    comment.Answers cursor fun _ next => ∃ text, cursor.rest = '%' :: (text ++ next.rest) ∧
      Steady comment ('%' :: text) next.rest fun _ => True := by
  refine .firstOf ⟨answers_blockComment cursor, fun noBlock => ⟨answers_lineComment cursor noBlock,
    fun noLine => ⟨?_, fun _ => trivial⟩⟩⟩
  -- The character alone is a comment only at the end of a line.
  refine (answers_word cursor _).imp ?_
  intro _ next opens
  refine ⟨[], opens, ?_⟩
  intro part isPart
  have isCursor : cursor = ⟨cursor.offset, '%' :: next.rest⟩ := by
    rw [← List.singleton_append, ← opens]
  have ends : ∀ first ∈ part.head?, isInLine first = false := by
    intro first isFirst
    obtain ⟨others, isNext⟩ := List.head?_eq_some_iff.mp (head?_of_part isPart isFirst)
    cases accepted : isInLine first with
    | false => rfl
    | true =>
        have reads : lineComment.Reads ('%' :: first :: others) _ fun _ => True :=
          .bind (.word ['%'] _) fun _ _ => .bind (reads_longest_run _ accepted others)
            fun _ _ => .pure trivial
        rw [isCursor, isNext] at noLine
        exact absurd noLine reads.not_rejectsAt
  have unfinished : Unfinished part := by
    rintro others rfl
    cases ends '*' rfl
  rw [comment_eq]
  refine .firstOf (.tail unfinished.rejects_blockComment (.tail ?_ (.head (.word ['%'] part))))
  exact .after (.word ['%'] part) fun _ _ => .bind (rejects_takeWhile1 _ ends)

/-- A part of a quoted text is read in the same way if the same character follows it. -/
theorem answers_textPart (cursor : Cursor) :
    textPart.Answers cursor fun part next => ∃ text, cursor.rest = text ++ next.rest ∧
      ∀ other, other.head? = next.rest.head? → textPart.Reads (text ++ other) other (· = part) := by
  refine .firstOf ⟨?_, fun _ => ⟨?_, fun _ => trivial⟩⟩
  · refine (answers_takeWhile1 _ _ cursor).imp ?_
    intro part next found
    obtain ⟨nonempty, isPart, isRest⟩ := found
    refine ⟨part, by rw [isPart, isRest, List.takeWhile_append_dropWhile], ?_⟩
    intro other sameHead
    refine .firstOf (.head (.takeWhile1 _ nonempty ?_ ?_))
    · rw [isPart]
      exact List.all_eq_true.mp List.all_takeWhile
    · intro first isFirst
      rw [sameHead, isRest] at isFirst
      exact head_dropWhile first isFirst
  · refine .bind (answers_char cursor _) ?_
    intro _ middle opens
    refine .bind (answers_satisfy _ _ middle) ?_
    intro letter next found
    obtain ⟨listed, isMiddle⟩ := found
    refine .pure ⟨['\\', letter], by rw [opens, isMiddle]; rfl, ?_⟩
    intro other _
    exact reads_textPart_escape listed other

theorem answers_textParts (cursor : Cursor) :
    (many textPart).Answers cursor fun parts next => ∃ text, cursor.rest = text ++ next.rest ∧
      (next.rest.head? = some '"' → ∀ rest,
        (many textPart).Reads (text ++ '"' :: rest) ('"' :: rest) (· = parts)) := by
  induction size : cursor.rest.length using Nat.strongRecOn generalizing cursor with
  | ind size inductionHypothesis =>
      subst size
      refine .rounds ?_ ?_
      · intro _ _ _ _
        exact ⟨[], rfl, fun _ rest => .many_nil (rejects_textPart rest)⟩
      · refine .optional ((answers_textPart cursor).imp ?_) fun _ value isSome => nomatch isSome
        rintro part next ⟨first, isFirst, reads⟩ _ ⟨⟩ shorter
        refine (inductionHypothesis _ shorter next rfl).imp ?_
        rintro parts last ⟨others, isOthers, readOthers⟩
        refine ⟨first ++ others, by rw [isFirst, isOthers, List.append_assoc], ?_⟩
        intro quoted rest
        have sameHead : (others ++ '"' :: rest).head? = next.rest.head? := by
          rw [isOthers]
          cases others with
          | nil => exact quoted.symm
          | cons _ _ => rfl
        have nonempty : first ≠ [] := by
          rintro rfl
          rw [isFirst, List.nil_append] at shorter
          exact absurd shorter (Nat.lt_irrefl _)
        have less : (others ++ '"' :: rest).length < (first ++ (others ++ '"' :: rest)).length := by
          have positive := List.length_pos_iff.mpr nonempty
          rw [@List.length_append _ first]
          omega
        rw [List.append_assoc]
        refine (Reads.many_cons (reads _ sameHead) less (readOthers quoted rest)).imp ?_
        rintro _ ⟨_, _, rfl, rfl, rfl⟩
        rfl

/-- A quoted text is read in the same way whatever follows its end. -/
theorem answers_quotedText_anywhere (cursor : Cursor) :
    quotedText.Answers cursor fun value next => ∃ text, cursor.rest = '"' :: (text ++ next.rest) ∧
      ∀ rest, quotedText.Reads ('"' :: text ++ rest) rest (· = value) := by
  refine .expecting _ (.bind (answers_char cursor _) ?_)
  intro _ middle opens
  refine .bind (answers_textParts middle) ?_
  rintro parts behind ⟨text, isText, reads⟩
  refine .bind (answers_char behind _) ?_
  intro _ next closes
  refine .pure ⟨text ++ ['"'], by simp [opens, isText, closes], ?_⟩
  intro rest
  have shape : '"' :: (text ++ ['"']) ++ rest = '"' :: (text ++ '"' :: rest) := by simp
  rw [shape]
  refine .expecting _ (.bind (.char _ _) fun _ _ => .bind (reads (by rw [closes]; rfl) rest) ?_)
  rintro _ rfl
  exact .bind (.char _ _) fun _ _ => .pure rfl

theorem answers_quotedText (cursor : Cursor) :
    quotedText.Answers cursor fun value next => ∃ text, cursor.rest = '"' :: (text ++ next.rest) ∧
      Steady quotedText ('"' :: text) next.rest (· = value) := by
  refine (answers_quotedText_anywhere cursor).imp ?_
  rintro value next ⟨text, isText, reads⟩
  exact ⟨text, isText, fun part _ => reads part⟩

/-! Pieces. -/

/-- A character that is read for itself wherever it stands outside of comments and quoted texts. -/
def isPlain (character : Char) : Bool :=
  !(['"', '%', '.', '(', ')', '\x7b', '\x7d', ']'].contains character)

/-- The first text consists of pieces in front of the second one. -/
inductive Pieces : List Char → List Char → Prop
  | nil (rest : List Char) : Pieces rest rest
  | plain {character : Char} {text rest : List Char} (isPlain : isPlain character = true)
      (others : Pieces text rest) : Pieces (character :: text) rest
  | point {next : Char} {text rest : List Char} (noInterval : next ≠ '.')
      (others : Pieces (next :: text) rest) : Pieces ('.' :: next :: text) rest
  | interval {text rest : List Char} (others : Pieces text rest) :
      Pieces ('.' :: '.' :: text) rest
  | quoted {text behind rest : List Char} {value : String}
      (steady : Steady quotedText ('"' :: text) behind (· = value)) (others : Pieces behind rest) :
      Pieces ('"' :: (text ++ behind)) rest
  | comment {text behind rest : List Char}
      (steady : Steady comment ('%' :: text) behind fun _ => True) (others : Pieces behind rest) :
      Pieces ('%' :: (text ++ behind)) rest
  | parentheses {text behind rest : List Char} (content : Pieces text (')' :: behind))
      (others : Pieces behind rest) : Pieces ('(' :: text) rest
  | braces {text behind rest : List Char} (content : Pieces text ('\x7d' :: behind))
      (others : Pieces behind rest) : Pieces ('\x7b' :: text) rest

namespace Pieces

variable {text middle rest : List Char}

theorem trans (first : Pieces text middle) (second : Pieces middle rest) : Pieces text rest := by
  induction first with
  | nil _ => exact second
  | plain isPlain _ inductionHypothesis => exact .plain isPlain (inductionHypothesis second)
  | point noInterval _ inductionHypothesis => exact .point noInterval (inductionHypothesis second)
  | interval _ inductionHypothesis => exact .interval (inductionHypothesis second)
  | quoted steady _ inductionHypothesis => exact .quoted steady (inductionHypothesis second)
  | comment steady _ inductionHypothesis => exact .comment steady (inductionHypothesis second)
  | parentheses content _ _ inductionHypothesis =>
      exact .parentheses content (inductionHypothesis second)
  | braces content _ _ inductionHypothesis => exact .braces content (inductionHypothesis second)

/-- Pieces stand in front of the text behind them. -/
theorem suffix (pieces : Pieces text rest) : rest <:+ text := by
  induction pieces with
  | nil _ => exact List.suffix_refl _
  | plain _ _ inductionHypothesis => exact inductionHypothesis.trans (List.suffix_cons _ _)
  | point _ _ inductionHypothesis => exact inductionHypothesis.trans (List.suffix_cons _ _)
  | interval _ inductionHypothesis =>
      exact inductionHypothesis.trans (List.suffix_append ['.', '.'] _)
  | @quoted text _ _ _ _ _ inductionHypothesis =>
      exact inductionHypothesis.trans (List.suffix_append ('"' :: text) _)
  | @comment text _ _ _ _ inductionHypothesis =>
      exact inductionHypothesis.trans (List.suffix_append ('%' :: text) _)
  | parentheses _ _ insideHypothesis inductionHypothesis =>
      exact inductionHypothesis.trans ((List.suffix_cons _ _).trans
        (insideHypothesis.trans (List.suffix_cons _ _)))
  | braces _ _ insideHypothesis inductionHypothesis =>
      exact inductionHypothesis.trans ((List.suffix_cons _ _).trans
        (insideHypothesis.trans (List.suffix_cons _ _)))

theorem run (arePlain : ∀ character ∈ text, isPlain character = true) :
    Pieces (text ++ rest) rest := by
  induction text with
  | nil => exact .nil rest
  | cons first others inductionHypothesis =>
      obtain ⟨isPlain, arePlain⟩ := List.forall_mem_cons.mp arePlain
      exact .plain isPlain (inductionHypothesis arePlain)

end Pieces

/-! What the parsers accept consists of pieces. -/

/-- The text that the parser accepts consists of pieces. -/
def Spans {α : Type} (parser : Parser α) : Prop :=
  ∀ cursor, parser.Answers cursor fun _ next => Pieces cursor.rest next.rest

section Combinators

variable {α β : Type} {parser : Parser α} {further : α → Parser β}

theorem spans_pure (value : α) : Spans (pure value : Parser α) :=
  fun cursor => .pure (.nil cursor.rest)

theorem spans_fail (cause : ParseError.Cause) : Spans (fail cause : Parser α) :=
  fun cursor => answers_fail cause cursor

theorem Spans.bind (first : Spans parser) (second : ∀ value, Spans (further value)) :
    Spans (parser >>= further) := by
  intro cursor
  refine .bind (first cursor) ?_
  intro value next pieces
  exact (second value next).imp fun _ _ others => pieces.trans others

theorem Spans.recover {recovery : ParseError → Parser α} (spans : Spans parser)
    (others : ∀ error, Spans (recovery error)) : Spans (Parser.recover parser recovery) :=
  fun cursor => .recover (spans cursor) fun error _ => others error cursor

theorem Spans.explain (cause : ParseError.Cause) (spans : Spans parser) :
    Spans (Parser.explain cause parser) :=
  fun cursor => .explain cause (spans cursor)

theorem Spans.expecting (expectation : Expectation) (spans : Spans parser) :
    Spans (Parser.expecting expectation parser) :=
  spans.explain _

theorem Spans.commit (spans : Spans parser) : Spans (Parser.commit parser) :=
  fun cursor => .commit (spans cursor)

theorem Spans.optional (spans : Spans parser) : Spans (Parser.optional parser) :=
  .recover (.bind spans fun _ => spans_pure _) fun _ => spans_pure _

theorem spans_firstOf {parsers : List (Parser α)} (spans : parsers.Forall Spans) :
    Spans (firstOf parsers) :=
  fun cursor => .firstOf (answersOne_of_forall fun parser member =>
    List.forall_iff_forall_mem.mp spans parser member cursor)

theorem Spans.located [Located α] (spans : Spans parser) : Spans (Parser.located parser) :=
  fun cursor => .located ((spans cursor).imp fun _ _ pieces _ => pieces)

theorem Spans.convert {conversion : α → Except ParseError.Cause β} (spans : Spans parser) :
    Spans (Parser.convert parser conversion) :=
  fun cursor => .convert ((spans cursor).imp fun _ _ pieces _ _ => pieces)

theorem Spans.consumed (spans : Spans parser) : Spans (Parser.consumed parser) :=
  fun cursor => .consumed ((spans cursor).imp fun _ _ pieces _ _ => pieces)

theorem Spans.rounds {round : Parser (Option α)} (spans : Spans round) :
    Spans (Parser.rounds round) := by
  intro cursor
  induction size : cursor.rest.length using Nat.strongRecOn generalizing cursor with
  | ind size inductionHypothesis =>
      subst size
      refine .rounds ?_ ?_
      · intro _ _ _ _
        exact .nil _
      · refine (spans cursor).imp ?_
        intro _ next pieces _ _ shorter
        exact (inductionHypothesis _ shorter next rfl).imp fun _ _ others => pieces.trans others

theorem Spans.many (spans : Spans parser) : Spans (Parser.many parser) :=
  spans.optional.rounds

theorem Spans.separated1 {separator : Parser Unit} (between : Spans separator)
    (spans : Spans parser) : Spans (Parser.separated1 separator parser) :=
  .bind spans fun _ => .bind (.many (.bind between fun _ => spans)) fun _ => spans_pure _

theorem Spans.separated {separator : Parser Unit} (between : Spans separator)
    (spans : Spans parser) : Spans (Parser.separated separator parser) :=
  .bind (between.separated1 spans).optional fun _ => spans_pure _

theorem spans_fix {ι : Type} {step : (ι → Parser α) → ι → Parser α}
    (preserves : ∀ family : ι → Parser α, (∀ index, Spans (family index)) →
      ∀ index, Spans (step family index)) (index : ι) : Spans (fix step index) := by
  have unfolded (text : List Char) (index : ι) : Spans (fix.iterate step text index) := by
    induction text generalizing index with
    | nil => exact preserves _ (fun _ => spans_fail _) index
    | cons character text inductionHypothesis => exact preserves _ inductionHypothesis index
  intro cursor
  exact .rest (unfolded cursor.rest index cursor)

end Combinators

section Characters

variable {accepts : Char → Bool}
  (arePlain : ∀ character, accepts character = true → isPlain character = true)

include arePlain

theorem spans_satisfy (kind : Mismatch) : Spans (satisfy accepts kind) := by
  intro cursor
  refine (answers_satisfy accepts kind cursor).imp ?_
  intro character next found
  rw [found.2]
  exact .plain (arePlain _ found.1) (.nil _)

theorem spans_takeWhile : Spans (takeWhile accepts) := by
  intro cursor
  refine (answers_takeWhile accepts cursor).imp ?_
  intro text next found
  have split := @List.takeWhile_append_dropWhile _ accepts cursor.rest
  rw [← split, found.2]
  apply Pieces.run
  intro character member
  exact arePlain character (List.all_eq_true.mp List.all_takeWhile character member)

theorem spans_takeWhile1 (kind : Mismatch) : Spans (takeWhile1 accepts kind) :=
  .bind (spans_satisfy arePlain kind) fun _ => .bind (spans_takeWhile arePlain) fun _ => spans_pure _

omit arePlain in
theorem spans_char {character : Char} (plain : isPlain character = true) :
    Spans (char character) := by
  refine .bind (spans_satisfy ?_ _) fun _ => spans_pure _
  intro other isOther
  rw [beq_iff_eq.mp isOther]
  exact plain

omit arePlain in
theorem spans_word {expected : List Char} (plain : expected.all isPlain = true) :
    Spans (word expected) := by
  intro cursor
  refine (answers_word cursor expected).imp ?_
  intro _ next found
  rw [found]
  exact .run (List.all_eq_true.mp plain)

omit arePlain in
theorem spans_token {spelling : String} (plain : spelling.toList.all isPlain = true) :
    Spans (token spelling) :=
  .expecting _ (spans_word plain)

end Characters

end SoftRules.Grammar
