import SoftRules.Grammar.Space
import SoftRules.Proofs.Parser.Reading

/-!
How white space and the tokens around it are read.
-/

set_option autoImplicit false

namespace SoftRules.Grammar

open SoftRules.Parser

/-- Neither white space nor a comment starts the text. -/
def Solid (text : List Char) : Prop :=
  ∀ first ∈ text.head?, isSpace first = false ∧ first ≠ '%'

theorem solid_cons {first : Char} {text : List Char} (visible : isSpace first = false)
    (noComment : first ≠ '%') : Solid (first :: text) := by
  intro other isFirst
  cases isFirst
  exact ⟨visible, noComment⟩

theorem Solid.append {text : List Char} (solid : Solid text) (nonempty : text ≠ [])
    (rest : List Char) : Solid (text ++ rest) := by
  cases text with
  | nil => exact absurd rfl nonempty
  | cons first text => exact solid

variable {text blanks : List Char}

theorem Solid.not_startsWith (solid : Solid text) (rest : List Char) : ¬ '%' :: rest <+: text := by
  rintro ⟨others, rfl⟩
  exact (solid '%' rfl).2 rfl

theorem Solid.rejects_spaceItem (solid : Solid text) : spaceItem.Rejects text := by
  have space : (takeWhile1 isSpace .spaces).Rejects text :=
    rejects_takeWhile1 _ fun first isFirst => (solid first isFirst).1
  have comment : comment.Rejects text :=
    rejects_firstOf (.cons (.bind (rejects_word (solid.not_startsWith _)))
      (.cons (.bind (rejects_word (solid.not_startsWith _)))
        (.cons (rejects_word (solid.not_startsWith _)) .nil)))
  exact rejects_firstOf (.cons (.bind space) (.cons comment .nil))

theorem Solid.reads_spaceItem (solid : Solid text) (nonempty : blanks ≠ [])
    (areBlank : ∀ blank ∈ blanks, isSpace blank = true) :
    spaceItem.Reads (blanks ++ text) text fun _ => True := by
  have taken := Reads.takeWhile1 .spaces nonempty areBlank
    fun first isFirst => (solid first isFirst).1
  exact .firstOf (.head (.bind taken fun _ _ => .pure trivial))

/-- White space is read up to the next character that is none. -/
theorem Solid.reads_space (solid : Solid text) (blanks : List Char)
    (areBlank : ∀ blank ∈ blanks, isSpace blank = true) :
    space.Reads (blanks ++ text) text fun _ => True := by
  have finished : (many spaceItem).Reads text text fun _ => True :=
    (Reads.many_nil solid.rejects_spaceItem).imp fun _ _ => trivial
  by_cases nonempty : blanks = []
  · rw [nonempty]
    exact .bind finished fun _ _ => .pure trivial
  · have shorter : text.length < (blanks ++ text).length := by
      have positive := List.length_pos_iff.mpr nonempty
      rw [List.length_append]
      omega
    exact .bind (.many_cons (solid.reads_spaceItem nonempty areBlank) shorter finished)
      fun _ _ => .pure trivial

theorem Solid.reads_no_space (solid : Solid text) : space.Reads text text fun _ => True :=
  solid.reads_space [] (by simp)

theorem Solid.reads_blank (solid : Solid text) : space.Reads (' ' :: text) text fun _ => True :=
  solid.reads_space [' '] (by simp [isSpace])

theorem Solid.reads_space1 (solid : Solid text) :
    space1.Reads (' ' :: text) text fun _ => True := by
  have first : spaceItem.Reads ([' '] ++ text) text fun _ => True :=
    solid.reads_spaceItem (by simp) (by simp [isSpace])
  have items : (many1 spaceItem).Reads (' ' :: text) text fun _ => True :=
    .bind (.explain _ first) fun _ _ =>
      .bind (.many_nil solid.rejects_spaceItem) fun _ _ => .pure trivial
  exact .bind items fun _ _ => .pure trivial

theorem Solid.rejects_space1 (solid : Solid text) : space1.Rejects text :=
  .bind (.bind (.explain _ solid.rejects_spaceItem))

theorem reads_token (spelling : String) (rest : List Char) :
    (token spelling).Reads (spelling.toList ++ rest) rest fun _ => True :=
  .expecting _ (.word _ _)

theorem rejects_token {spelling : String} (refused : ¬ spelling.toList <+: text) :
    (token spelling).Rejects text :=
  .expecting _ (rejects_word refused)

section SpacedToken

variable {spelling : String} {before after : List Char}

theorem Solid.reads_spacedToken (solid : Solid text) (isToken : Solid spelling.toList)
    (nonempty : spelling.toList ≠ []) (blanksBefore : ∀ blank ∈ before, isSpace blank = true)
    (blanksAfter : ∀ blank ∈ after, isSpace blank = true) :
    (spacedToken spelling).Reads (before ++ (spelling.toList ++ (after ++ text))) text
      fun _ => True :=
  .expecting _ (.bind ((isToken.append nonempty _).reads_space _ blanksBefore) fun _ _ =>
    .bind (.word _ _) fun _ _ => solid.reads_space _ blanksAfter)

theorem Solid.rejects_spacedToken (solid : Solid text) (refused : ¬ spelling.toList <+: text)
    (blanksBefore : ∀ blank ∈ before, isSpace blank = true) :
    (spacedToken spelling).Rejects (before ++ text) :=
  .expecting _ (.after (solid.reads_space _ blanksBefore) fun _ _ => .bind (rejects_word refused))

/-- A delimiter of one character with a blank behind it, as it stands between items. -/
theorem Solid.reads_delimiter {delimiter : Char} (solid : Solid text)
    (shape : spelling.toList = [delimiter]) (visible : isSpace delimiter = false)
    (noComment : delimiter ≠ '%') :
    (spacedToken spelling).Reads (delimiter :: ' ' :: text) text fun _ => True := by
  have reads := @Solid.reads_spacedToken _ spelling [] [' '] solid
    (shape ▸ solid_cons visible noComment) (by simp [shape]) (by simp) (by simp [isSpace])
  rwa [shape] at reads

end SpacedToken

theorem solid_writeAll {ι : Type} {separator : List Char} {write : ι → List Char → List Char}
    {items : List ι} (nonempty : items ≠ [])
    (solid : ∀ entry ∈ items, ∀ text, Solid (write entry text)) (rest : List Char) :
    Solid (writeAll separator write items rest) := by
  rcases items with _ | ⟨first, _ | ⟨second, others⟩⟩
  · exact absurd rfl nonempty
  · exact solid first (List.mem_cons_self ..) _
  · exact solid first (List.mem_cons_self ..) _

section Braced

variable {α : Type} {content : Parser α} {good : α → Prop} {rest : List Char}

/-- A nonempty content stands between single blanks. -/
theorem Solid.reads_braced (solid : Solid text)
    (reads : content.Reads text (' ' :: '\x7d' :: rest) good) :
    (braced content).Reads ('\x7b' :: ' ' :: text) rest good := by
  have closing : Solid ('\x7d' :: rest) := solid_cons rfl (by decide)
  exact .bind (.char _ _) fun _ _ => .bind solid.reads_blank fun _ _ => .bind reads
    fun value isGood => .bind closing.reads_blank fun _ _ => .bind (.char _ _) fun _ _ =>
      .pure isGood

theorem reads_braced_empty (reads : content.Reads ('\x7d' :: rest) ('\x7d' :: rest) good) :
    (braced content).Reads ('\x7b' :: ' ' :: ' ' :: '\x7d' :: rest) rest good := by
  have closing : Solid ('\x7d' :: rest) := solid_cons rfl (by decide)
  exact .bind (.char _ _) fun _ _ =>
    .bind (closing.reads_space [' ', ' '] (by simp [isSpace])) fun _ _ =>
      .bind reads fun value isGood => .bind closing.reads_no_space fun _ _ =>
        .bind (.char _ _) fun _ _ => .pure isGood

theorem rejects_braced (refused : '\x7b' ∉ text.head?) : (braced content).Rejects text :=
  .bind (rejects_char refused)

end Braced

end SoftRules.Grammar
