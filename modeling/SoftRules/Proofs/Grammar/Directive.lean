import SoftRules.Grammar.Statement
import SoftRules.Proofs.Grammar.Space
import SoftRules.Proofs.Language.Erasure
import SoftRules.Proofs.Parser.Acceptance

/-!
Where a directive ends, and what is kept of it.

A directive is cut at its first period in front of a blank, a comment or the end of the text. One
description of its parts serves both directions: what has these parts is read as a directive, and a
directive that was read has them.
-/

set_option autoImplicit false

namespace SoftRules.Grammar

open SoftRules.Parser

/-- The name and the content of a directive in front of the period that ends it. -/
structure DirectiveParts (name content rest : List Char) : Prop where
  nonempty : name ≠ []
  letters : ∀ letter ∈ name, letter.isAlpha = true
  unreserved : isReserved (String.ofList name) = false
  stops : ∀ next ∈ (content ++ '.' :: rest).head?, next.isAlpha = false
  isPart : partBefore? endsDirective (content ++ '.' :: rest) = some content

variable {name content rest : List Char}

theorem DirectiveParts.reads (parts : DirectiveParts name content rest) :
    directive.Reads ('#' :: (name ++ (content ++ '.' :: rest))) rest fun found =>
      found.erase = (Directive.ofText ('#' :: (name ++ content))).erase := by
  have isName : directiveName.Reads (name ++ (content ++ '.' :: rest)) (content ++ '.' :: rest)
      fun _ => True := by
    refine .convert ((Reads.takeWhile1 _ parts.nonempty parts.letters parts.stops).imp ?_)
    rintro _ rfl
    exact ⟨_, by rw [parts.unreserved]; rfl, trivial⟩
  have shape : '#' :: (name ++ (content ++ '.' :: rest)) =
      '#' :: (name ++ content) ++ '.' :: rest := by simp
  have text : (do char '#'; let _ ← directiveName; directiveBody : Parser (List Char)).Reads
      ('#' :: (name ++ content) ++ '.' :: rest) ('.' :: rest) fun _ => True := by
    rw [← shape]
    exact .bind (.char _ _) fun _ _ => .bind isName fun _ _ =>
      (Reads.takeUntil _ parts.isPart).imp fun _ _ => trivial
  rw [shape]
  refine .located (.expecting _ (.bind (.consumed text) ?_))
  rintro _ rfl
  exact .bind (reads_token "." rest) fun _ _ => .pure fun _ => rfl

theorem answers_directiveName (cursor : Cursor) : directiveName.Answers cursor fun name next =>
    name ≠ [] ∧ (∀ letter ∈ name, letter.isAlpha = true) ∧
      isReserved (String.ofList name) = false ∧
        (∀ first ∈ next.rest.head?, first.isAlpha = false) ∧ cursor.rest = name ++ next.rest := by
  refine .convert ((answers_takeWhile1 _ _ cursor).imp ?_)
  rintro name next ⟨nonempty, isName, isRest⟩ _ converted
  split at converted
  · cases converted
  · next unreserved =>
      cases converted
      refine ⟨nonempty, ?_, Bool.eq_false_iff.mpr unreserved, ?_, ?_⟩
      · rw [isName]
        exact List.all_eq_true.mp List.all_takeWhile
      · rw [isRest]
        exact head_dropWhile
      · rw [isName, isRest, List.takeWhile_append_dropWhile]

theorem answers_directiveParts (cursor : Cursor) : directive.Answers cursor fun found next =>
    ∃ name content, DirectiveParts name content next.rest ∧
      cursor.rest = '#' :: (name ++ (content ++ '.' :: next.rest)) ∧
        found.erase = (Directive.ofText ('#' :: (name ++ content))).erase := by
  have isDirective : (consumed do char '#'; let _ ← directiveName; directiveBody).Answers cursor
      fun text next => cursor.rest = text ++ next.rest ∧ ∀ rest, next.rest = '.' :: rest →
        ∃ name content, DirectiveParts name content rest ∧ text = '#' :: (name ++ content) := by
    refine .consumed (.bind (answers_char cursor '#') fun _ behind isSharp => ?_)
    refine .bind (answers_directiveName behind) ?_
    rintro name middle ⟨nonempty, letters, unreserved, stops, isName⟩
    refine (answers_takeUntil middle _ _).imp ?_
    rintro content next ⟨isPart, isContent⟩ text isText
    refine ⟨isText, fun rest isRest => ?_⟩
    rw [isSharp, isName, isContent, ← List.append_assoc, ← List.cons_append] at isText
    rw [isContent, isRest] at isPart stops
    exact ⟨name, content, ⟨nonempty, letters, unreserved, stops, isPart⟩,
      (List.append_cancel_right isText).symm⟩
  refine .located (.expecting _ (.bind isDirective ?_))
  rintro text middle ⟨isText, hasParts⟩
  refine .bind (.expecting _ (answers_word middle _)) fun _ next isRest => .pure fun _ => ?_
  obtain ⟨name, content, parts, rfl⟩ := hasParts next.rest isRest
  refine ⟨name, content, parts, ?_, rfl⟩
  rw [isText, isRest]
  simp

/-! A directive on another text. -/

theorem endsDirective_append (first : Char) (start rest rest' : List Char) :
    endsDirective (first :: (start ++ '.' :: rest)) =
      endsDirective (first :: (start ++ '.' :: rest')) := by
  cases start with
  | nil => by_cases isPeriod : first = '.' <;> simp [endsDirective, isPeriod]
  | cons second start => by_cases isPeriod : first = '.' <;> simp [endsDirective, isPeriod]

/-- Nothing behind the period of a directive decides that the directive does not end before. -/
theorem partBefore?_directive {rest' : List Char}
    (isPart : partBefore? endsDirective (content ++ '.' :: rest) = some content)
    (ends : endsDirective ('.' :: rest') = true) :
    partBefore? endsDirective (content ++ '.' :: rest') = some content := by
  induction content with
  | nil => simp [partBefore?, ends]
  | cons first content inductionHypothesis =>
      simp only [List.cons_append, partBefore?, endsDirective_append first content rest rest']
        at isPart ⊢
      split at isPart
      · cases isPart
      · next continues =>
          obtain ⟨behind, isBehind, shape⟩ := Option.map_eq_some_iff.mp isPart
          cases shape
          rw [if_neg continues, inductionHypothesis isBehind]
          rfl

theorem endsDirective_of_part {part : List Char} (ends : endsDirective ('.' :: rest) = true)
    (isPart : part <+: rest) : endsDirective ('.' :: part) = true := by
  cases part with
  | nil => rfl
  | cons first part =>
      obtain ⟨others, rfl⟩ := isPart
      exact ends

theorem DirectiveParts.ends (parts : DirectiveParts name content rest) :
    endsDirective ('.' :: rest) = true := by
  obtain ⟨left, shape, ends⟩ := partBefore?_eq_some parts.isPart
  rwa [← List.append_cancel_left shape] at ends

theorem DirectiveParts.again {other : List Char} (parts : DirectiveParts name content rest)
    (ends : endsDirective ('.' :: other) = true) : DirectiveParts name content other where
  nonempty := parts.nonempty
  letters := parts.letters
  unreserved := parts.unreserved
  stops := by
    have stops := parts.stops
    cases content with
    | nil => exact stops
    | cons first content => exact stops
  isPart := partBefore?_directive parts.isPart ends

/-- A directive is read again wherever its period still ends it. -/
theorem reads_directive_again {offset stop : Nat} {text rest other : List Char} {found : Directive}
    (accepted : directive.read ⟨offset, text ++ rest⟩ = .accept found ⟨stop, rest⟩)
    (ends : endsDirective ('.' :: rest) = true → endsDirective ('.' :: other) = true) :
    directive.Reads (text ++ other) other fun again => found.erase = again.erase := by
  obtain ⟨name, content, parts, isText, isFound⟩ := answers_directiveParts _ _ _ accepted
  have shape : text = '#' :: (name ++ (content ++ ['.'])) :=
    (List.append_left_inj rest).mp (by simpa using isText)
  have again := (parts.again (ends parts.ends)).reads.imp fun _ same => isFound.trans same.symm
  rw [shape]
  simpa using again

/-- A directive does not depend on what follows it. -/
theorem reads_directive_of_part {offset stop : Nat} {text rest part : List Char} {found : Directive}
    (accepted : directive.read ⟨offset, text ++ rest⟩ = .accept found ⟨stop, rest⟩)
    (isPart : part <+: rest) :
    directive.Reads (text ++ part) part fun other => found.erase = other.erase :=
  reads_directive_again accepted fun ends => endsDirective_of_part ends isPart

end SoftRules.Grammar
