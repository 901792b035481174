import SoftRules.Parser.Basic
import Mathlib.Data.List.Forall2

/-!
What a parser makes of a given text.

`Reads` and `Rejects` describe the outcome of a parser on a text wherever the text stands, so that
offsets need not be tracked. Each combinator has one lemma for either outcome. As the text that is
left is part of the description, a sequence of parsers is described by a chain of texts, each a
suffix of the one before it.
-/

set_option autoImplicit false

namespace SoftRules

namespace Source

theorem byteLength_pos {text : List Char} (nonempty : text ≠ []) : 0 < byteLength text := by
  cases text with
  | nil => exact absurd rfl nonempty
  | cons character text =>
      have positive := character.utf8Size_pos
      unfold byteLength
      omega

theorem split_byteLength (text rest : List Char) :
    split (text ++ rest) (byteLength text) = (text, rest) := by
  induction text with
  | nil =>
      cases rest with
      | nil => rfl
      | cons character rest => rfl
  | cons character text inductionHypothesis =>
      obtain ⟨size, isSize⟩ := Nat.exists_eq_succ_of_ne_zero
        (Nat.pos_iff_ne_zero.mp (byteLength_pos (List.cons_ne_nil character text)))
      have whole : byteLength (character :: text) = character.utf8Size + byteLength text := rfl
      rw [isSize, List.cons_append, split]
      have remaining : size + 1 - character.utf8Size = byteLength text := by omega
      rw [remaining, inductionHypothesis]

end Source

theorem Cursor.offset_lt_of_length_lt {cursor next : Cursor} (forward : cursor ≤ next)
    (shorter : next.rest.length < cursor.rest.length) : cursor.offset < next.offset := by
  obtain ⟨count, rfl⟩ := forward
  have nonempty : cursor.rest.take count ≠ [] := by
    intro empty
    simp only [advance, List.length_drop] at shorter
    rcases List.take_eq_nil_iff.mp empty with rfl | isEmpty
    · omega
    · rw [isEmpty] at shorter
      exact absurd shorter (Nat.not_lt_zero _)
  have positive := Source.byteLength_pos nonempty
  simp only [advance]
  omega

theorem Cursor.text_of_le {cursor next : Cursor} (forward : cursor ≤ next) :
    ∃ text, cursor.rest = text ++ next.rest := by
  obtain ⟨count, rfl⟩ := forward
  exact ⟨cursor.rest.take count, (List.take_append_drop count cursor.rest).symm⟩

theorem Cursor.offset_of_le {cursor next : Cursor} {text : List Char} (forward : cursor ≤ next)
    (isText : cursor.rest = text ++ next.rest) :
    next.offset = cursor.offset + Source.byteLength text := by
  obtain ⟨count, rfl⟩ := forward
  have sameText : cursor.rest.take count ++ cursor.rest.drop count =
      text ++ cursor.rest.drop count := by
    rw [List.take_append_drop]
    exact isText
  rw [advance, List.append_cancel_right sameText]

namespace Parser

variable {α β : Type}

theorem length_le_of_read {parser : Parser α} {cursor next : Cursor} {value : α}
    (accepted : parser.read cursor = .accept value next) :
    next.rest.length ≤ cursor.rest.length := by
  obtain ⟨count, rfl⟩ := le_of_read accepted
  simp only [Cursor.advance, List.length_drop]
  omega

/-- The parser accepts `input`, leaves `left` of it and answers with a good value. -/
def Reads (parser : Parser α) (input left : List Char) (good : α → Prop) : Prop :=
  ∀ offset, ∃ value stop, parser.read ⟨offset, input⟩ = .accept value ⟨stop, left⟩ ∧ good value

def Rejects (parser : Parser α) (input : List Char) : Prop :=
  ∀ offset, ∃ error, parser.read ⟨offset, input⟩ = .reject error

section Outcomes

variable {parser : Parser α} {further : α → Parser β} {input middle left : List Char}
  {good : α → Prop} {fine : β → Prop}

theorem Reads.imp (reads : parser.Reads input left good) {better : α → Prop}
    (implies : ∀ value, good value → better value) : parser.Reads input left better := by
  intro offset
  obtain ⟨value, stop, accepted, isGood⟩ := reads offset
  exact ⟨value, stop, accepted, implies value isGood⟩

theorem Reads.pure {value : α} (isGood : good value) :
    (Pure.pure value : Parser α).Reads input input good :=
  fun offset => ⟨value, offset, rfl, isGood⟩

theorem Reads.bind (first : parser.Reads input middle good)
    (second : ∀ value, good value → (further value).Reads middle left fine) :
    (parser >>= further).Reads input left fine := by
  intro offset
  obtain ⟨value, stop, accepted, isGood⟩ := first offset
  rw [read_bind, accepted]
  exact second value isGood stop

theorem Rejects.bind (first : parser.Rejects input) : (parser >>= further).Rejects input := by
  intro offset
  obtain ⟨error, rejected⟩ := first offset
  rw [read_bind, rejected]
  exact ⟨error, rfl⟩

theorem Rejects.after (first : parser.Reads input middle good)
    (second : ∀ value, good value → (further value).Rejects middle) :
    (parser >>= further).Rejects input := by
  intro offset
  obtain ⟨value, stop, accepted, isGood⟩ := first offset
  rw [read_bind, accepted]
  exact second value isGood stop

theorem Reads.offset : Parser.offset.Reads input input fun _ => True :=
  fun offset => ⟨offset, offset, rfl, trivial⟩

theorem Reads.rest : Parser.rest.Reads input input (· = input) :=
  fun offset => ⟨input, offset, rfl, rfl⟩

theorem Reads.skip (text left : List Char) :
    (Parser.skip text.length).Reads (text ++ left) left fun _ => True := by
  intro offset
  refine ⟨(), offset + Source.byteLength text, ?_, trivial⟩
  exact congrArg (Outcome.accept ()) (Cursor.advance_append offset text left)

theorem rejects_fail (cause : ParseError.Cause) (input : List Char) :
    (Parser.fail cause : Parser α).Rejects input :=
  fun _ => ⟨_, rfl⟩

end Outcomes

section Characters

variable {accepts : Char → Bool} {character : Char} {input left : List Char}

theorem Reads.satisfy (kind : Mismatch) (accepted : accepts character = true) :
    (Parser.satisfy accepts kind).Reads (character :: left) left (· = character) := by
  refine .bind .rest ?_
  rintro _ rfl
  simp only [accepted, if_true]
  exact .bind (.skip [character] left) fun _ _ => .pure rfl

theorem rejects_satisfy (kind : Mismatch) (refused : ∀ first ∈ input.head?, accepts first = false) :
    (Parser.satisfy accepts kind).Rejects input := by
  refine .after .rest ?_
  intro found isInput
  rw [isInput]
  cases input with
  | nil => exact rejects_fail _ _
  | cons first input =>
      simp only [refused first rfl, Bool.false_eq_true, if_false]
      exact rejects_fail _ _

theorem Reads.char (character : Char) (left : List Char) :
    (Parser.char character).Reads (character :: left) left fun _ => True :=
  .bind (.satisfy _ (beq_self_eq_true character)) fun _ _ => .pure trivial

theorem rejects_char (refused : character ∉ input.head?) :
    (Parser.char character).Rejects input := by
  refine .bind (rejects_satisfy _ ?_)
  intro first isFirst
  apply beq_false_of_ne
  rintro rfl
  exact refused isFirst

theorem head_dropWhile {text : List Char} :
    ∀ first ∈ (text.dropWhile accepts).head?, accepts first = false := by
  intro first isFirst
  have refused := List.head?_dropWhile_not accepts text
  rw [Option.mem_def.mp isFirst] at refused
  exact refused

theorem dropWhile_of_head {text : List Char} (stops : ∀ next ∈ text.head?, accepts next = false) :
    text.dropWhile accepts = text := by
  cases text with
  | nil => rfl
  | cons next text => exact List.dropWhile_cons_of_neg (by simp [stops next rfl])

theorem dropWhile_append {text : List Char} (stops : ∀ next ∈ left.head?, accepts next = false) :
    (text ++ left).dropWhile accepts = text.dropWhile accepts ++ left := by
  rw [List.dropWhile_append]
  split
  · next isEmpty => rw [List.isEmpty_iff.mp isEmpty, List.nil_append, dropWhile_of_head stops]
  · rfl

theorem takeWhile_append {text : List Char} (accepted : ∀ next ∈ text, accepts next = true)
    (stops : ∀ next ∈ left.head?, accepts next = false) :
    (text ++ left).takeWhile accepts = text := by
  rw [List.takeWhile_append_of_pos accepted]
  cases left with
  | nil => simp
  | cons next left => simp [stops next rfl]

theorem Reads.takeWhile {text : List Char} (accepted : ∀ next ∈ text, accepts next = true)
    (stops : ∀ next ∈ left.head?, accepts next = false) :
    (Parser.takeWhile accepts).Reads (text ++ left) left (· = text) := by
  refine .bind .rest ?_
  rintro _ rfl
  simp only [takeWhile_append accepted stops]
  exact .bind (.skip text left) fun _ _ => .pure rfl

theorem Reads.takeWhile1 (kind : Mismatch) {text : List Char} (nonempty : text ≠ [])
    (accepted : ∀ next ∈ text, accepts next = true)
    (stops : ∀ next ∈ left.head?, accepts next = false) :
    (Parser.takeWhile1 accepts kind).Reads (text ++ left) left (· = text) := by
  cases text with
  | nil => exact absurd rfl nonempty
  | cons first others =>
      refine .bind (.satisfy kind (accepted first (List.mem_cons_self ..))) ?_
      rintro _ rfl
      refine .bind (.takeWhile (fun next member => accepted next (List.mem_cons_of_mem _ member))
        stops) ?_
      rintro _ rfl
      exact .pure rfl

theorem rejects_takeWhile1 (kind : Mismatch)
    (refused : ∀ first ∈ input.head?, accepts first = false) :
    (Parser.takeWhile1 accepts kind).Rejects input :=
  .bind (rejects_satisfy kind refused)

theorem Reads.word (expected left : List Char) :
    (Parser.word expected).Reads (expected ++ left) left fun _ => True := by
  refine .bind .rest ?_
  rintro _ rfl
  rw [if_pos (List.isPrefixOf_iff_prefix.mpr (List.prefix_append expected left))]
  exact .skip expected left

theorem rejects_word {expected : List Char} (refused : ¬ expected <+: input) :
    (Parser.word expected).Rejects input := by
  refine .after .rest ?_
  rintro _ rfl
  rw [if_neg (fun isStart => refused (List.isPrefixOf_iff_prefix.mp isStart))]
  exact rejects_fail _ _

end Characters

section Choices

variable {parser : Parser α} {input left : List Char} {good : α → Prop}

theorem Reads.recover {recovery : ParseError → Parser α} (reads : parser.Reads input left good) :
    (Parser.recover parser recovery).Reads input left good := by
  intro offset
  obtain ⟨value, stop, accepted, isGood⟩ := reads offset
  refine ⟨value, stop, ?_, isGood⟩
  simp only [Parser.recover, accepted]

theorem Reads.recovery {recovery : ParseError → Parser α} (rejects : parser.Rejects input)
    (reads : ∀ error, (recovery error).Reads input left good) :
    (Parser.recover parser recovery).Reads input left good := by
  intro offset
  obtain ⟨error, rejected⟩ := rejects offset
  obtain ⟨value, stop, accepted, isGood⟩ := reads error offset
  refine ⟨value, stop, ?_, isGood⟩
  simp only [Parser.recover, rejected]
  exact accepted

theorem Rejects.recovery {recovery : ParseError → Parser α} (rejects : parser.Rejects input)
    (others : ∀ error, (recovery error).Rejects input) :
    (Parser.recover parser recovery).Rejects input := by
  intro offset
  obtain ⟨error, rejected⟩ := rejects offset
  obtain ⟨last, lastRejected⟩ := others error offset
  refine ⟨last, ?_⟩
  simp only [Parser.recover, rejected]
  exact lastRejected

theorem Reads.explain (cause : ParseError.Cause) (reads : parser.Reads input left good) :
    (Parser.explain cause parser).Reads input left good := by
  intro offset
  obtain ⟨value, stop, accepted, isGood⟩ := reads offset
  refine ⟨value, stop, ?_, isGood⟩
  simp only [Parser.explain, accepted]

theorem Rejects.explain (cause : ParseError.Cause) (rejects : parser.Rejects input) :
    (Parser.explain cause parser).Rejects input := by
  intro offset
  obtain ⟨error, rejected⟩ := rejects offset
  refine ⟨error.within cause offset, ?_⟩
  simp only [Parser.explain, rejected]

theorem Reads.expecting (expectation : Expectation) (reads : parser.Reads input left good) :
    (Parser.expecting expectation parser).Reads input left good :=
  .explain _ reads

theorem Rejects.expecting (expectation : Expectation) (rejects : parser.Rejects input) :
    (Parser.expecting expectation parser).Rejects input :=
  .explain _ rejects

/-- One of the alternatives is read and those in front of it are rejected. -/
inductive ReadsOne (input left : List Char) (good : α → Prop) : List (Parser α) → Prop
  | head {parser : Parser α} {others : List (Parser α)} (reads : parser.Reads input left good) :
      ReadsOne input left good (parser :: others)
  | tail {parser : Parser α} {others : List (Parser α)} (rejects : parser.Rejects input)
      (reads : ReadsOne input left good others) : ReadsOne input left good (parser :: others)

inductive RejectsAll (input : List Char) : List (Parser α) → Prop
  | nil : RejectsAll input []
  | cons {parser : Parser α} {others : List (Parser α)} (rejects : parser.Rejects input)
      (rejected : RejectsAll input others) : RejectsAll input (parser :: others)

theorem Reads.firstOf {parsers : List (Parser α)} (reads : ReadsOne input left good parsers) :
    (Parser.firstOf parsers).Reads input left good := by
  refine .bind .offset ?_
  intro start _
  generalize (⟨⟨.mismatch .alternatives, start⟩, []⟩ : ParseError) = error
  induction reads generalizing error with
  | head reads => exact .recover reads
  | tail rejects _ inductionHypothesis =>
      exact .recovery rejects fun inner => inductionHypothesis _

theorem rejects_firstOf {parsers : List (Parser α)} (rejected : RejectsAll input parsers) :
    (Parser.firstOf parsers).Rejects input := by
  refine .after .offset ?_
  intro start _
  generalize (⟨⟨.mismatch .alternatives, start⟩, []⟩ : ParseError) = error
  induction rejected generalizing error with
  | nil => exact fun _ => ⟨error, rfl⟩
  | cons rejects _ inductionHypothesis =>
      exact .recovery rejects fun inner => inductionHypothesis _

theorem Reads.optional_some (reads : parser.Reads input left good) :
    (Parser.optional parser).Reads input left fun found => ∃ value, found = some value ∧ good value :=
  .recover (.bind reads fun value isGood => .pure ⟨value, rfl, isGood⟩)

theorem Reads.optional_none (rejects : parser.Rejects input) :
    (Parser.optional parser).Reads input input (· = none) :=
  .recovery (.bind rejects) fun _ => .pure rfl

theorem Reads.commit (reads : parser.Reads input left good) :
    (Parser.commit parser).Reads input left good :=
  .recover reads

theorem Reads.located [Located α]
    (reads : parser.Reads input left fun value => ∀ origin, good (Located.relocate origin value)) :
    (Parser.located parser).Reads input left good := by
  refine .bind .offset fun _ _ => .bind reads fun value isGood => .bind .offset fun _ _ => .pure ?_
  exact isGood _

theorem Rejects.located [Located α] (rejects : parser.Rejects input) :
    (Parser.located parser).Rejects input :=
  .after .offset fun _ _ => .bind rejects

theorem Reads.refuse (rejects : parser.Rejects input) :
    (Parser.refuse parser).Reads input input fun _ => True := by
  intro offset
  obtain ⟨error, rejected⟩ := rejects offset
  exact ⟨(), offset, by simp only [Parser.refuse, rejected], trivial⟩

theorem Reads.convert {conversion : α → Except ParseError.Cause β} {fine : β → Prop}
    (reads : parser.Reads input left fun value => ∃ result, conversion value = .ok result ∧
      fine result) :
    (Parser.convert parser conversion).Reads input left fine := by
  refine .bind .offset fun _ _ => .bind reads ?_
  rintro value ⟨result, converted, isFine⟩
  rw [converted]
  exact .pure isFine

theorem Rejects.convert {conversion : α → Except ParseError.Cause β}
    (rejects : parser.Rejects input) :
    (Parser.convert parser conversion).Rejects input :=
  .after .offset fun _ _ => .bind rejects

theorem rejects_convert {conversion : α → Except ParseError.Cause β}
    (reads : parser.Reads input left fun value => ∃ cause, conversion value = .error cause) :
    (Parser.convert parser conversion).Rejects input := by
  refine .after .offset fun _ _ => .after reads ?_
  rintro value ⟨cause, failed⟩
  rw [failed]
  exact fun _ => ⟨_, rfl⟩

/-- The text that was read is what stands in front of the text that is left. -/
theorem Reads.consumed {text : List Char} (reads : parser.Reads (text ++ left) left good) :
    (Parser.consumed parser).Reads (text ++ left) left (· = text) := by
  intro offset
  obtain ⟨value, stop, accepted, _⟩ := reads offset
  refine ⟨text, stop, ?_, rfl⟩
  have forward := le_of_read accepted
  obtain ⟨count, moved⟩ := forward
  obtain ⟨isStop, isRest⟩ := Cursor.mk.injEq .. ▸ moved
  have taken : (text ++ left).take count = text := by
    have whole := List.take_append_drop count (text ++ left)
    rw [← isRest] at whole
    exact List.append_cancel_right whole
  simp only [taken] at isStop
  have size : stop - offset = Source.byteLength text := by omega
  simp only [Parser.consumed, read_bind, Parser.offset, Parser.rest, accepted, read_pure, size,
    Source.split_byteLength]

end Choices

section Repetitions

variable {round : Parser (Option α)} {input middle left : List Char} {good : List α → Prop}

/-- Rounds from the first text on are rounds from the second one on, after some good values. -/
def Passes (round : Parser (Option α)) (input middle : List Char) (good : List α → Prop) : Prop :=
  ∀ left fine, (rounds round).Reads middle left fine →
    (rounds round).Reads input left fun values =>
      ∃ first others, values = first ++ others ∧ good first ∧ fine others

/-- The round answers that there is nothing more to read. -/
def Ends (round : Parser (Option α)) (input : List Char) : Prop :=
  ∀ offset, ∃ next, round.read ⟨offset, input⟩ = .accept none next

theorem Passes.refl (isGood : good []) : Passes round input input good := by
  intro left fine reads
  exact reads.imp fun values isFine => ⟨[], values, rfl, isGood, isFine⟩

theorem Passes.one {value : α → Prop}
    (reads : round.Reads input middle fun found => ∃ item, found = some item ∧ value item)
    (shorter : middle.length < input.length) :
    Passes round input middle fun values => ∃ item, values = [item] ∧ value item := by
  intro left fine others offset
  obtain ⟨_, stop, accepted, item, rfl, isValue⟩ := reads offset
  obtain ⟨values, last, read, isFine⟩ := others stop
  have further : offset < stop := Cursor.offset_lt_of_length_lt (le_of_read accepted) shorter
  refine ⟨item :: values, last, ?_, [item], values, rfl, ⟨item, rfl, isValue⟩, isFine⟩
  rw [read_rounds]
  simp only [accepted, further, if_true, read]

theorem Passes.trans {first second : List α → Prop} (before : Passes round input middle first)
    {after : List Char} (behind : Passes round middle after second) :
    Passes round input after fun values =>
      ∃ start rest, values = start ++ rest ∧ first start ∧ second rest := by
  intro left fine reads
  refine (before left _ (behind left fine reads)).imp ?_
  rintro values ⟨start, _, rfl, isFirst, rest, others, rfl, isSecond, isFine⟩
  exact ⟨start ++ rest, others, by rw [List.append_assoc], ⟨start, rest, rfl, isFirst, isSecond⟩,
    isFine⟩

theorem Passes.imp (passes : Passes round input middle good) {better : List α → Prop}
    (implies : ∀ values, good values → better values) : Passes round input middle better := by
  intro left fine reads
  refine (passes left fine reads).imp ?_
  rintro values ⟨first, others, isSplit, isGood, isFine⟩
  exact ⟨first, others, isSplit, implies first isGood, isFine⟩

theorem Reads.rounds_nil (ends : Ends round input) :
    (rounds round).Reads input input (· = []) := by
  intro offset
  obtain ⟨next, accepted⟩ := ends offset
  refine ⟨[], offset, ?_, rfl⟩
  rw [read_rounds]
  simp only [accepted]

theorem Passes.reads (passes : Passes round input middle good) (ends : Ends round middle) :
    (rounds round).Reads input middle good := by
  refine (passes middle _ (.rounds_nil ends)).imp ?_
  rintro values ⟨first, others, rfl, isGood, rfl⟩
  rw [List.append_nil]
  exact isGood

theorem Ends.optional {parser : Parser α} (rejects : parser.Rejects input) :
    Ends (Parser.optional parser) input := by
  intro offset
  obtain ⟨found, stop, accepted, rfl⟩ := Reads.optional_none rejects offset
  exact ⟨⟨stop, input⟩, accepted⟩

end Repetitions

section Lists

variable {item : Parser α} {separator : Parser Unit} {input middle left : List Char}
  {good : α → Prop} {fine : List α → Prop}

theorem Reads.many_nil (rejects : item.Rejects input) :
    (many item).Reads input input (· = []) :=
  .rounds_nil (.optional rejects)

theorem Reads.many_cons (first : item.Reads input middle good)
    (shorter : middle.length < input.length) (others : (many item).Reads middle left fine) :
    (many item).Reads input left fun values =>
      ∃ value rest, values = value :: rest ∧ good value ∧ fine rest := by
  refine (Passes.one (.optional_some first) shorter left fine others).imp ?_
  rintro values ⟨_, rest, rfl, ⟨value, rfl, isGood⟩, isFine⟩
  exact ⟨value, rest, rfl, isGood, isFine⟩

theorem Reads.separated1 (first : item.Reads input middle good)
    (others : (many do separator; item).Reads middle left fine) :
    (Parser.separated1 separator item).Reads input left fun values =>
      ∃ value rest, values = value :: rest ∧ good value ∧ fine rest := by
  refine .bind first fun value isGood => .bind others fun rest isFine => .pure ?_
  exact ⟨value, rest, rfl, isGood, isFine⟩

theorem Rejects.separated1 (rejects : item.Rejects input) :
    (Parser.separated1 separator item).Rejects input :=
  .bind rejects

theorem Reads.separated (reads : (Parser.separated1 separator item).Reads input left fine) :
    (Parser.separated separator item).Reads input left fine := by
  refine .bind (.optional_some reads) ?_
  rintro _ ⟨values, rfl, isFine⟩
  exact .pure isFine

theorem Reads.separated_nil (rejects : item.Rejects input) :
    (Parser.separated separator item).Reads input input (· = []) := by
  refine .bind (.optional_none (.separated1 rejects)) ?_
  rintro _ rfl
  exact .pure rfl

end Lists

/-! Items in a row, with something between each two of them. -/

section Rows

variable {ι : Type} {item : Parser α} {between : Parser Unit} {good : ι → α → Prop}
  {items : List ι} {input left : List Char}

inductive ReadsRow (item : Parser α) (between : Parser Unit) (good : ι → α → Prop) :
    List ι → List Char → List Char → Prop
  | last {last : ι} {input left : List Char} (reads : item.Reads input left (good last)) :
      ReadsRow item between good [last] input left
  | cons {first : ι} {others : List ι} {input middle behind left : List Char}
      (reads : item.Reads input middle (good first))
      (separates : between.Reads middle behind fun _ => True)
      (shorter : behind.length < middle.length)
      (row : ReadsRow item between good others behind left) :
      ReadsRow item between good (first :: others) input left

/-- The first item of a row, and the others behind it. -/
theorem ReadsRow.split (row : ReadsRow item between good items input left)
    (ends : (do between; item : Parser α).Rejects left) :
    ∃ first others middle, items = first :: others ∧ item.Reads input middle (good first) ∧
      (many do between; item).Reads middle left (List.Forall₂ good others) := by
  induction row with
  | last reads =>
      exact ⟨_, [], _, rfl, reads, (Reads.many_nil ends).imp fun _ empty => empty ▸ .nil⟩
  | @cons first others input middle behind left reads separates shorter row inductionHypothesis =>
      obtain ⟨second, further, next, rfl, readsSecond, readsFurther⟩ := inductionHypothesis ends
      refine ⟨first, second :: further, middle, rfl, reads, ?_⟩
      obtain ⟨_, _, accepted, _⟩ := readsSecond 0
      have within := length_le_of_read accepted
      refine (Reads.many_cons (.bind separates fun _ _ => readsSecond)
        (Nat.lt_of_le_of_lt within shorter) readsFurther).imp ?_
      rintro values ⟨value, others, rfl, isGood, areGood⟩
      exact .cons isGood areGood

theorem ReadsRow.separated1 (row : ReadsRow item between good items input left)
    (ends : (do between; item : Parser α).Rejects left) :
    (Parser.separated1 between item).Reads input left (List.Forall₂ good items) := by
  obtain ⟨first, others, middle, rfl, readsFirst, readsOthers⟩ := row.split ends
  refine (Reads.separated1 readsFirst readsOthers).imp ?_
  rintro values ⟨value, others, rfl, isGood, areGood⟩
  exact .cons isGood areGood

end Rows

/-! Lists as they are written: the texts of the items with separators between them. -/

section Separated

variable {ι : Type}

/-- The items in front of a text, with separators between them. -/
def writeAll (separator : List Char) (write : ι → List Char → List Char) :
    List ι → List Char → List Char
  | [], rest => rest
  | [last], rest => write last rest
  | first :: second :: others, rest =>
      write first (separator ++ writeAll separator write (second :: others) rest)

/-- Items are read in a row if each of them is, whatever follows it. -/
inductive ReadsAll (item : Parser α) (write : ι → List Char → List Char) (separator : List Char)
    (good : ι → α → Prop) : List ι → List Char → Prop
  | last {last : ι} {rest : List Char} (reads : item.Reads (write last rest) rest (good last)) :
      ReadsAll item write separator good [last] rest
  | cons {first second : ι} {others : List ι} {rest : List Char}
      (reads : item.Reads
        (write first (separator ++ writeAll separator write (second :: others) rest))
        (separator ++ writeAll separator write (second :: others) rest) (good first))
      (behind : ReadsAll item write separator good (second :: others) rest) :
      ReadsAll item write separator good (first :: second :: others) rest

variable {item : Parser α} {between : Parser Unit} {write : ι → List Char → List Char}
  {separator : List Char} {good : ι → α → Prop}

/-- It is enough to know of each item that it is read in front of any text that may follow. -/
theorem readsAll_of_forall {items : List ι} {rest : List Char} {Follows : List Char → Prop}
    (nonempty : items ≠ [])
    (reads : ∀ entry ∈ items, ∀ text, Follows text →
      item.Reads (write entry text) text (good entry))
    (between : ∀ text, Follows (separator ++ text)) (last : Follows rest) :
    ReadsAll item write separator good items rest := by
  induction items with
  | nil => exact absurd rfl nonempty
  | cons first others inductionHypothesis =>
      have isRead := reads first (List.mem_cons_self ..)
      cases others with
      | nil => exact .last (isRead rest last)
      | cons second others =>
          refine .cons (isRead _ (between _)) (inductionHypothesis (by simp) ?_)
          intro entry member
          exact reads entry (List.mem_cons_of_mem _ member)

theorem map_eq_of_forall₂ {γ : Type} {view : α → γ} {expected : ι → γ} {items : List ι}
    {values : List α} (same : List.Forall₂ (fun entry value => view value = expected entry) items
      values) : values.map view = items.map expected := by
  induction same with
  | nil => rfl
  | cons first _ inductionHypothesis => rw [List.map_cons, List.map_cons, first, inductionHypothesis]

theorem forall₂_of_map_eq {γ : Type} {view : α → γ} {expected : ι → γ} {items : List ι}
    {values : List α} (same : values.map view = items.map expected) :
    List.Forall₂ (fun entry value => view value = expected entry) items values := by
  induction items generalizing values with
  | nil =>
      rw [List.map_eq_nil_iff.mp same]
      exact .nil
  | cons entry items inductionHypothesis =>
      obtain ⟨value, others, rfl, isFirst, areOthers⟩ := List.map_eq_cons_iff.mp same
      exact .cons isFirst (inductionHypothesis areOthers)

theorem ReadsAll.row {items : List ι} {rest : List Char}
    (reads : ReadsAll item write separator good items rest)
    (separates : ∀ entry ∈ items, ∀ text,
      between.Reads (separator ++ write entry text) (write entry text) fun _ => True)
    (nonempty : separator ≠ []) :
    ReadsRow item between good items (writeAll separator write items rest) rest := by
  induction reads with
  | last reads => exact .last reads
  | @cons first second others rest reads behind inductionHypothesis =>
      have separated : between.Reads
          (separator ++ writeAll separator write (second :: others) rest)
          (writeAll separator write (second :: others) rest) fun _ => True := by
        have isSeparated := separates second (List.mem_cons_of_mem _ (List.mem_cons_self ..))
        cases others with
        | nil => exact isSeparated rest
        | cons third others => exact isSeparated _
      refine .cons reads separated ?_ (inductionHypothesis ?_)
      · have positive := List.length_pos_iff.mpr nonempty
        rw [List.length_append]
        omega
      · intro entry member
        exact separates entry (List.mem_cons_of_mem _ member)

end Separated

/-! Whole texts. -/

section Texts

variable {item : Parser α} {input middle left : List Char} {good : α → Prop}
  {fine : List α → Prop}

/-- The part in front of the first stop, and the stop. -/
theorem partBefore?_eq_some {stop : List Char → Bool} {part : List Char}
    (isPart : partBefore? stop input = some part) :
    ∃ left, input = part ++ left ∧ stop left = true := by
  induction input generalizing part with
  | nil =>
      simp only [partBefore?] at isPart
      split at isPart
      · next stops =>
          cases isPart
          exact ⟨[], rfl, stops⟩
      · cases isPart
  | cons first others inductionHypothesis =>
      simp only [partBefore?] at isPart
      split at isPart
      · next stops =>
          cases isPart
          exact ⟨first :: others, rfl, stops⟩
      · obtain ⟨behind, isBehind, rfl⟩ := Option.map_eq_some_iff.mp isPart
        obtain ⟨left, rfl, stops⟩ := inductionHypothesis isBehind
        exact ⟨left, rfl, stops⟩

theorem Reads.takeUntil {stop : List Char → Bool} (cause : ParseError.Cause) {part : List Char}
    (isPart : partBefore? stop (part ++ left) = some part) :
    (Parser.takeUntil stop cause).Reads (part ++ left) left (· = part) := by
  refine .bind .rest ?_
  rintro _ rfl
  rw [isPart]
  exact .bind (.skip part left) fun _ _ => .pure rfl

theorem Reads.atEnd : Parser.atEnd.Reads input input (· = input.isEmpty) := by
  refine .bind .rest ?_
  rintro _ rfl
  exact .pure rfl

theorem Reads.untilEnd_nil : (untilEnd item).Reads [] [] (· = []) :=
  .rounds_nil fun offset => ⟨⟨offset, []⟩, rfl⟩

theorem Reads.untilEnd_cons (first : item.Reads input middle good)
    (shorter : middle.length < input.length) (others : (untilEnd item).Reads middle left fine) :
    (untilEnd item).Reads input left fun values =>
      ∃ value rest, values = value :: rest ∧ good value ∧ fine rest := by
  have round : (do
      if ← Parser.atEnd then return none
      return some (← item) : Parser (Option α)).Reads input middle fun found =>
      ∃ value, found = some value ∧ good value := by
    refine .bind .atEnd ?_
    rintro _ rfl
    have nonempty : input.isEmpty = false := by
      cases input with
      | nil => cases shorter
      | cons _ _ => rfl
    simp only [nonempty, Bool.false_eq_true, if_false]
    exact .bind first fun value isGood => .pure ⟨value, rfl, isGood⟩
  refine (Passes.one round shorter left fine others).imp ?_
  rintro values ⟨_, rest, rfl, ⟨value, rfl, isGood⟩, isFine⟩
  exact ⟨value, rest, rfl, isGood, isFine⟩

theorem Reads.run (reads : item.Reads input [] good) :
    ∃ value, item.run input = .ok value ∧ good value := by
  obtain ⟨value, stop, accepted, isGood⟩ := reads 0
  refine ⟨value, ?_, isGood⟩
  rw [Parser.run, Cursor.start, accepted]
  rfl

end Texts

end Parser

end SoftRules
