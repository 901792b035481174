import SoftRules.Source.Span

/-!
Positions in a source text. Parsing counts UTF-8 bytes; people count lines and characters. Every
conversion goes through `Source.split`, which cuts a text at a byte offset.
-/

set_option autoImplicit false

namespace SoftRules.Source

/-- The characters that start before the byte `offset`, and the remaining ones. -/
def split : List Char → Nat → List Char × List Char
  | [], _ => ([], [])
  | character :: text, 0 => ([], character :: text)
  | character :: text, offset + 1 =>
      let (before, after) := split text (offset + 1 - character.utf8Size)
      (character :: before, after)

/-- The number of bytes that `text` takes in UTF-8. -/
def byteLength : List Char → Nat
  | [] => 0
  | character :: text => character.utf8Size + byteLength text

/-- The number of characters that start before the byte `offset`. -/
def characterIndex (text : List Char) (offset : Nat) : Nat :=
  (split text offset).1.length

/-- Lines are counted from one and end at a line feed. -/
def line (text : List Char) (offset : Nat) : Nat :=
  (split text offset).1.count '\n' + 1

/-- The characters from the last line feed before `offset` up to `offset`. -/
def lineStart (text : List Char) (offset : Nat) : List Char :=
  ((split text offset).1.reverse.takeWhile (· != '\n')).reverse

/-- Columns are counted from one, in characters. -/
def column (text : List Char) (offset : Nat) : Nat :=
  (lineStart text offset).length + 1

/-- The whole line around `offset`, without the line feed that ends it. -/
def lineAround (text : List Char) (offset : Nat) : List Char :=
  lineStart text offset ++ (split text offset).2.takeWhile (· != '\n')

/-- The same range, counted in characters instead of bytes. -/
def characterRange (text : List Char) (span : Span) : Span :=
  ⟨characterIndex text span.start, characterIndex text span.stop⟩

theorem byteLength_append (first second : List Char) :
    byteLength (first ++ second) = byteLength first + byteLength second := by
  induction first with
  | nil => simp [byteLength]
  | cons character first ih => simp [byteLength, ih, Nat.add_assoc]

theorem split_append (text : List Char) (offset : Nat) :
    (split text offset).1 ++ (split text offset).2 = text := by
  fun_induction split text offset <;> simp_all

end SoftRules.Source
