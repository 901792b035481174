import SoftRules.Parser.Error

/-!
Parsers over a text with byte offsets.

A parser accepts the next characters of a text and leaves the cursor behind them, or it rejects
them, or it aborts. An alternative is tried only after a rejection; an abortion is final. Cursors
only move forward, which is part of every parser. A repetition ends where it would not advance, and
`Parser.fix` unfolds recursive productions no deeper than the remaining text is long, so every
parser is total.
-/

set_option autoImplicit false

namespace SoftRules

/-- The part of a text that is still to be read, and the byte at which it starts. -/
structure Cursor where
  offset : Nat
  rest : List Char
  deriving DecidableEq, Repr

namespace Cursor

def start (text : List Char) : Cursor := ⟨0, text⟩

def advance (cursor : Cursor) (count : Nat) : Cursor :=
  ⟨cursor.offset + Source.byteLength (cursor.rest.take count), cursor.rest.drop count⟩

@[simp] theorem advance_zero (cursor : Cursor) : cursor.advance 0 = cursor := by
  simp [advance, Source.byteLength]

theorem advance_advance (cursor : Cursor) (first second : Nat) :
    (cursor.advance first).advance second = cursor.advance (first + second) := by
  simp [advance, Source.byteLength_append, List.take_add, Nat.add_assoc]

@[simp] theorem advance_append (offset : Nat) (text rest : List Char) :
    advance ⟨offset, text ++ rest⟩ text.length = ⟨offset + Source.byteLength text, rest⟩ := by
  simp [advance]

/-- Reading on leads from the first cursor to the second. -/
instance : LE Cursor where
  le cursor next := ∃ count, next = cursor.advance count

theorem le_advance (cursor : Cursor) (count : Nat) : cursor ≤ cursor.advance count := ⟨count, rfl⟩

theorem le_refl (cursor : Cursor) : cursor ≤ cursor := ⟨0, by simp⟩

theorem le_trans {first second third : Cursor} (left : first ≤ second) (right : second ≤ third) :
    first ≤ third := by
  obtain ⟨before, rfl⟩ := left
  obtain ⟨after, rfl⟩ := right
  exact ⟨before + after, advance_advance first before after⟩

theorem length_lt_of_offset_lt {cursor next : Cursor} (forward : cursor ≤ next)
    (further : cursor.offset < next.offset) : next.rest.length < cursor.rest.length := by
  obtain ⟨count, rfl⟩ := forward
  have nonempty : cursor.rest.take count ≠ [] := by
    intro empty
    simp [advance, Source.byteLength, empty] at further
  have positive := List.length_pos_iff.mpr nonempty
  simp only [advance, List.length_take, List.length_drop] at positive ⊢
  omega

end Cursor

inductive Outcome (α : Type) where
  | accept (value : α) (next : Cursor)
  | reject (error : ParseError)
  | abort (error : ParseError)

/-- An acceptance leaves the cursor at or behind the given one. -/
def Outcome.Follows {α : Type} (cursor : Cursor) : Outcome α → Prop
  | .accept _ next => cursor ≤ next
  | .reject _ => True
  | .abort _ => True

theorem Outcome.Follows.trans {α : Type} {cursor next : Cursor} {outcome : Outcome α}
    (forward : cursor ≤ next) (follows : outcome.Follows next) : outcome.Follows cursor := by
  cases outcome with
  | accept _ _ => exact Cursor.le_trans forward follows
  | reject _ => trivial
  | abort _ => trivial

structure Parser (α : Type) where
  read : Cursor → Outcome α
  follows (cursor : Cursor) : (read cursor).Follows cursor

namespace Parser

variable {α β : Type}

theorem le_of_read {parser : Parser α} {cursor next : Cursor} {value : α}
    (accepted : parser.read cursor = .accept value next) : cursor ≤ next := by
  have follows := parser.follows cursor
  rwa [accepted] at follows

instance : Monad Parser where
  pure value := ⟨.accept value, Cursor.le_refl⟩
  bind parser further :=
    { read := fun cursor =>
        match parser.read cursor with
        | .accept value next => (further value).read next
        | .reject error => .reject error
        | .abort error => .abort error
      follows := fun cursor => by
        split
        · next accepted => exact .trans (le_of_read accepted) ((further _).follows _)
        all_goals trivial }

@[simp] theorem read_pure (value : α) (cursor : Cursor) :
    (pure value : Parser α).read cursor = .accept value cursor := rfl

theorem read_bind (parser : Parser α) (further : α → Parser β) (cursor : Cursor) :
    (parser >>= further).read cursor =
      match parser.read cursor with
      | .accept value next => (further value).read next
      | .reject error => .reject error
      | .abort error => .abort error := rfl

def reject (error : ParseError) : Parser α := ⟨fun _ => .reject error, fun _ => trivial⟩

def abort (error : ParseError) : Parser α := ⟨fun _ => .abort error, fun _ => trivial⟩

def offset : Parser Nat := ⟨fun cursor => .accept cursor.offset cursor, Cursor.le_refl⟩

/-- The text that is left, of which nothing is read. -/
def rest : Parser (List Char) := ⟨fun cursor => .accept cursor.rest cursor, Cursor.le_refl⟩

/-- Reads the next characters, however many there are of them. -/
def skip (count : Nat) : Parser Unit :=
  ⟨fun cursor => .accept () (cursor.advance count), fun cursor => cursor.le_advance count⟩

def fail (cause : ParseError.Cause) : Parser α := do
  reject ⟨⟨cause, ← offset⟩, []⟩

def mismatch (kind : Mismatch) : Parser α := fail (.mismatch kind)

def atEnd : Parser Bool := do
  return (← rest).isEmpty

/-- One character of a class. -/
def satisfy (accepts : Char → Bool) (kind : Mismatch) : Parser Char := do
  match ← rest with
  | [] => mismatch kind
  | character :: _ =>
      if accepts character then
        skip 1
        return character
      else mismatch kind

def char (expected : Char) : Parser Unit := do
  let _ ← satisfy (· == expected) .character

def oneOf (choices : List Char) : Parser Char :=
  satisfy (choices.contains ·) .oneOf

/-- All following characters of a class. -/
def takeWhile (accepts : Char → Bool) : Parser (List Char) := do
  let taken := (← rest).takeWhile accepts
  skip taken.length
  return taken

/-- All following characters of a class, of which there must be one. -/
def takeWhile1 (accepts : Char → Bool) (kind : Mismatch) : Parser (List Char) := do
  let first ← satisfy accepts kind
  let others ← takeWhile accepts
  return first :: others

def word (expected : List Char) : Parser Unit := do
  if expected.isPrefixOf (← rest) then skip expected.length else mismatch .word

/-- The part of `text` in front of its first tail that satisfies `stop`. -/
def partBefore? (stop : List Char → Bool) : List Char → Option (List Char)
  | [] => if stop [] then some [] else none
  | character :: text =>
      if stop (character :: text) then some []
      else (partBefore? stop text).map (character :: ·)

/-- Everything in front of the first tail of the text that satisfies `stop`. -/
def takeUntil (stop : List Char → Bool) (cause : ParseError.Cause) : Parser (List Char) := do
  match partBefore? stop (← rest) with
  | some part =>
      skip part.length
      return part
  | none => fail cause

/-- Goes on with `recovery` from the same place where `parser` rejects. -/
def recover (parser : Parser α) (recovery : ParseError → Parser α) : Parser α where
  read cursor :=
    match parser.read cursor with
    | .accept value next => .accept value next
    | .reject error => (recovery error).read cursor
    | .abort error => .abort error
  follows cursor := by
    split
    · next accepted => exact le_of_read accepted
    · exact (recovery _).follows cursor
    · trivial

/-- Puts an error of `parser` into the context of a wider one. -/
def explain (cause : ParseError.Cause) (parser : Parser α) : Parser α where
  read cursor :=
    match parser.read cursor with
    | .accept value next => .accept value next
    | .reject error => .reject (error.within cause cursor.offset)
    | .abort error => .abort (error.within cause cursor.offset)
  follows cursor := by
    split
    · next accepted => exact le_of_read accepted
    all_goals trivial

/-- Succeeds, without reading, exactly where `parser` rejects. -/
def refuse (parser : Parser α) : Parser Unit where
  read cursor :=
    match parser.read cursor with
    | .accept _ _ => (mismatch .negation).read cursor
    | .reject _ => .accept () cursor
    | .abort error => .abort error
  follows cursor := by
    split
    · exact (mismatch .negation : Parser Unit).follows cursor
    · exact cursor.le_refl
    · trivial

/-- The first of several parsers that does not reject. Only the last rejection is reported. -/
def firstOf (parsers : List (Parser α)) : Parser α := do
  let start ← offset
  go start ⟨⟨.mismatch .alternatives, start⟩, []⟩ parsers
where
  go (start : Nat) (error : ParseError) : List (Parser α) → Parser α
    | [] => reject error
    | parser :: parsers =>
        recover parser fun inner => go start (inner.within (.mismatch .alternatives) start) parsers

/-- Nothing is read where `parser` rejects. -/
def optional (parser : Parser α) : Parser (Option α) :=
  recover (do return some (← parser)) fun _ => return none

/-- Rules out the alternatives of `parser`. -/
def commit (parser : Parser α) : Parser α :=
  recover parser abort

def expecting (expectation : Expectation) (parser : Parser α) : Parser α :=
  explain (.expected expectation) parser

/-- The characters that `parser` reads. -/
def consumed (parser : Parser α) : Parser (List Char) := do
  let start ← offset
  let text ← rest
  let _ ← parser
  let stop ← offset
  return (Source.split text (stop - start)).1

/-- A conversion that may fail; its failure is reported at the start of what was read. -/
def convert (parser : Parser α) (conversion : α → Except ParseError.Cause β) : Parser β := do
  let start ← offset
  match conversion (← parser) with
  | .ok result => return result
  | .error cause => reject ⟨⟨cause, start⟩, []⟩

/-- Attaches the range that was read to the component. -/
def located [Located α] (parser : Parser α) : Parser α := do
  let start ← offset
  let component ← parser
  let stop ← offset
  return Located.relocate (some ⟨start, stop⟩) component

def readRounds (round : Parser (Option α)) (cursor : Cursor) : Outcome (List α) :=
  match accepted : round.read cursor with
  | .accept none _ => .accept [] cursor
  | .accept (some value) next =>
      if further : cursor.offset < next.offset then
        have := Cursor.length_lt_of_offset_lt (le_of_read accepted) further
        match readRounds round next with
        | .accept values last => .accept (value :: values) last
        | .reject error => .reject error
        | .abort error => .abort error
      else (mismatch .progress).read cursor
  | .reject error => .reject error
  | .abort error => .abort error
termination_by cursor.rest.length

theorem readRounds_follows (round : Parser (Option α)) (cursor : Cursor) :
    (readRounds round cursor).Follows cursor := by
  fun_induction readRounds round cursor with
  | case1 cursor => exact cursor.le_refl
  | case2 cursor value next accepted further _ values last others ih =>
      rw [others] at ih
      exact Cursor.le_trans (le_of_read accepted) ih
  | _ => trivial

/-- Runs `round` until it answers `none`, which reads nothing. A round that answers must read at
least one character. -/
def rounds (round : Parser (Option α)) : Parser (List α) where
  read := readRounds round
  follows := readRounds_follows round

theorem read_rounds (round : Parser (Option α)) (cursor : Cursor) :
    (rounds round).read cursor =
      match round.read cursor with
      | .accept none _ => .accept [] cursor
      | .accept (some value) next =>
          if cursor.offset < next.offset then
            match (rounds round).read next with
            | .accept values last => .accept (value :: values) last
            | .reject error => .reject error
            | .abort error => .abort error
          else (mismatch .progress).read cursor
      | .reject error => .reject error
      | .abort error => .abort error := by
  change readRounds round cursor = _
  rw [readRounds]
  split <;> rename_i accepted <;> simp only [accepted]
  split <;> rfl

/-- As many as `parser` accepts in a row. -/
def many (parser : Parser α) : Parser (List α) :=
  rounds (optional parser)

def many1 (parser : Parser α) : Parser (List α) := do
  let first ← explain (.mismatch .repetition) parser
  let others ← many parser
  return first :: others

/-- One or more items. A separator that no item follows is not read. -/
def separated1 (separator : Parser Unit) (item : Parser α) : Parser (List α) := do
  let first ← item
  let others ← many do separator; item
  return first :: others

def separated (separator : Parser Unit) (item : Parser α) : Parser (List α) := do
  return (← optional (separated1 separator item)).getD []

/-- Items up to the end of the text. -/
def untilEnd (item : Parser α) : Parser (List α) :=
  rounds do
    if ← atEnd then return none
    return some (← item)

/-- Ties a recursive family of productions: `step` is given the family itself. The productions are
unfolded as often as there are characters left, which is enough if each of them reads a character
before it comes back to the family. -/
def fix {ι : Type} (step : (ι → Parser α) → ι → Parser α) (index : ι) : Parser α := do
  iterate (← rest) index
where
  /-- One level of unfolding for each character, and one more. -/
  iterate : List Char → ι → Parser α
    | [], index => step (fun _ => mismatch .progress) index
    | _ :: rest, index => step (iterate rest) index

/-- Reads the whole text. -/
def run (parser : Parser α) (text : List Char) : Except ParseError α :=
  match parser.read (.start text) with
  | .accept value last =>
      if last.rest.isEmpty then .ok value
      else .error ⟨⟨.mismatch .endOfText, last.offset⟩, []⟩
  | .reject error => .error error
  | .abort error => .error error

end Parser

end SoftRules
