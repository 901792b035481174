import SoftRules.Proofs.Parser.Reading
import Mathlib.Data.List.Basic

/-!
Recursive families of productions are fixed points of their steps.

A step is guarded if what it makes of a text depends on the family only through shorter texts. The
number of unfoldings that `Parser.fix` provides is then enough, and the family satisfies its own
equation. Guardedness is checked combinator by combinator: parsers that agree on short texts are
combined to parsers that do, and behind a parser that consumes something the bound gets smaller.
-/

set_option autoImplicit false

namespace SoftRules.Parser

variable {α β : Type}

/-- Both parsers make the same of every text that is shorter than the bound. -/
def AgreeBelow (bound : Nat) (first second : Parser α) : Prop :=
  ∀ cursor, cursor.rest.length < bound → first.read cursor = second.read cursor

/-- A parser is known by what it makes of texts. -/
theorem eq_of_read {first second : Parser α} (same : first.read = second.read) :
    first = second := by
  cases first
  cases second
  cases same
  rfl

/-- The parser leaves less than it was given. -/
def Consumes (parser : Parser α) : Prop :=
  ∀ cursor value next, parser.read cursor = .accept value next →
    next.rest.length < cursor.rest.length

section Consumption

variable {parser : Parser α} {further : α → Parser β}

theorem Consumes.bind (consumes : parser.Consumes) : (parser >>= further).Consumes := by
  intro cursor value next accepted
  rw [read_bind] at accepted
  split at accepted
  · next middle read =>
      have before := consumes _ _ _ read
      have after := length_le_of_read accepted
      omega
  all_goals cases accepted

theorem Consumes.after (consumes : ∀ value, (further value).Consumes) :
    (parser >>= further).Consumes := by
  intro cursor value next accepted
  rw [read_bind] at accepted
  split at accepted
  · next middle read =>
      have before := length_le_of_read read
      have after := consumes _ _ _ _ accepted
      omega
  all_goals cases accepted

theorem consumes_satisfy (accepts : Char → Bool) (kind : Mismatch) :
    (satisfy accepts kind).Consumes := by
  intro cursor value next accepted
  obtain ⟨offset, text⟩ := cursor
  cases text with
  | nil => cases accepted
  | cons first text =>
      change (if accepts first = true then (do skip 1; return first) else mismatch kind).read
        ⟨offset, first :: text⟩ = _ at accepted
      split at accepted
      · cases accepted
        simp [Cursor.advance]
      · cases accepted

theorem consumes_char (expected : Char) : (char expected).Consumes :=
  .bind (consumes_satisfy _ _)

theorem consumes_takeWhile1 (accepts : Char → Bool) (kind : Mismatch) :
    (takeWhile1 accepts kind).Consumes :=
  .bind (consumes_satisfy _ _)

theorem consumes_word {expected : List Char} (nonempty : expected ≠ []) :
    (word expected).Consumes := by
  intro cursor value next accepted
  obtain ⟨offset, text⟩ := cursor
  change (if expected.isPrefixOf text = true then skip expected.length else mismatch .word).read
    ⟨offset, text⟩ = _ at accepted
  split at accepted
  · next isStart =>
      have within := (List.isPrefixOf_iff_prefix.mp isStart).length_le
      have positive := List.length_pos_iff.mpr nonempty
      cases accepted
      simp only [Cursor.advance, List.length_drop]
      omega
  · cases accepted

theorem Consumes.explain (cause : ParseError.Cause) (consumes : parser.Consumes) :
    (Parser.explain cause parser).Consumes := by
  intro cursor value next accepted
  simp only [Parser.explain] at accepted
  split at accepted
  · next read =>
      cases accepted
      exact consumes _ _ _ read
  all_goals cases accepted

theorem Consumes.recover {recovery : ParseError → Parser α} (consumes : parser.Consumes)
    (others : ∀ error, (recovery error).Consumes) :
    (Parser.recover parser recovery).Consumes := by
  intro cursor value next accepted
  simp only [Parser.recover] at accepted
  split at accepted
  · next read =>
      cases accepted
      exact consumes _ _ _ read
  · exact others _ _ _ _ accepted
  · cases accepted

theorem consumes_firstOf {parsers : List (Parser α)} (consumes : parsers.Forall Consumes) :
    (firstOf parsers).Consumes := by
  refine .after fun start => ?_
  generalize (⟨⟨.mismatch .alternatives, start⟩, []⟩ : ParseError) = error
  induction parsers generalizing error with
  | nil =>
      intro cursor value next accepted
      cases accepted
  | cons parser parsers inductionHypothesis =>
      obtain ⟨first, others⟩ := (List.forall_cons _ _ _).mp consumes
      exact .recover first fun inner => inductionHypothesis others _

theorem Consumes.located [Located α] (consumes : parser.Consumes) :
    (Parser.located parser).Consumes :=
  .after fun _ => .bind consumes

theorem Consumes.convert {conversion : α → Except ParseError.Cause β}
    (consumes : parser.Consumes) : (Parser.convert parser conversion).Consumes :=
  .after fun _ => .bind consumes

end Consumption

section Agreement

variable {bound : Nat} {first second : Parser α}

theorem AgreeBelow.refl (parser : Parser α) : AgreeBelow bound parser parser :=
  fun _ _ => rfl

theorem AgreeBelow.bind (agree : AgreeBelow bound first second) {further other : α → Parser β}
    (agreeAfter : ∀ value, AgreeBelow bound (further value) (other value)) :
    AgreeBelow bound (first >>= further) (second >>= other) := by
  intro cursor short
  rw [read_bind, read_bind, ← agree cursor short]
  cases read : first.read cursor with
  | accept value next =>
      exact agreeAfter value next (Nat.lt_of_le_of_lt (length_le_of_read read) short)
  | reject error => rfl
  | abort error => rfl

/-- Behind a parser that consumes something, agreement on shorter texts is enough. -/
theorem AgreeBelow.guard (agree : AgreeBelow (bound + 1) first second) (consumes : first.Consumes)
    {further other : α → Parser β}
    (agreeAfter : ∀ value, AgreeBelow bound (further value) (other value)) :
    AgreeBelow (bound + 1) (first >>= further) (second >>= other) := by
  intro cursor short
  rw [read_bind, read_bind, ← agree cursor short]
  cases read : first.read cursor with
  | accept value next =>
      have shorter := consumes _ _ _ read
      exact agreeAfter value next (by omega)
  | reject error => rfl
  | abort error => rfl

theorem AgreeBelow.recover (agree : AgreeBelow bound first second)
    {recovery other : ParseError → Parser α}
    (agreeAfter : ∀ error, AgreeBelow bound (recovery error) (other error)) :
    AgreeBelow bound (Parser.recover first recovery) (Parser.recover second other) := by
  intro cursor short
  simp only [Parser.recover, ← agree cursor short]
  split
  · rfl
  · exact agreeAfter _ cursor short
  · rfl

theorem AgreeBelow.explain (agree : AgreeBelow bound first second) (cause : ParseError.Cause) :
    AgreeBelow bound (Parser.explain cause first) (Parser.explain cause second) := by
  intro cursor short
  simp only [Parser.explain, ← agree cursor short]

theorem AgreeBelow.optional (agree : AgreeBelow bound first second) :
    AgreeBelow bound (Parser.optional first) (Parser.optional second) :=
  .recover (.bind agree fun _ => .refl _) fun _ => .refl _

theorem AgreeBelow.located [Located α] (agree : AgreeBelow bound first second) :
    AgreeBelow bound (Parser.located first) (Parser.located second) :=
  .bind (.refl _) fun _ => .bind agree fun _ => .refl _

/-- Alternatives agree if they do so one by one. -/
inductive AllAgreeBelow (bound : Nat) : List (Parser α) → List (Parser α) → Prop
  | nil : AllAgreeBelow bound [] []
  | cons {first second : Parser α} {firsts seconds : List (Parser α)}
      (agree : AgreeBelow bound first second) (others : AllAgreeBelow bound firsts seconds) :
      AllAgreeBelow bound (first :: firsts) (second :: seconds)

theorem AllAgreeBelow.firstOf {firsts seconds : List (Parser α)}
    (agree : AllAgreeBelow bound firsts seconds) :
    AgreeBelow bound (Parser.firstOf firsts) (Parser.firstOf seconds) := by
  refine .bind (.refl _) fun start => ?_
  generalize (⟨⟨.mismatch .alternatives, start⟩, []⟩ : ParseError) = error
  induction agree generalizing error with
  | nil => exact .refl _
  | cons agree _ inductionHypothesis => exact .recover agree fun inner => inductionHypothesis _

theorem AgreeBelow.rounds {first second : Parser (Option α)}
    (agree : AgreeBelow bound first second) :
    AgreeBelow bound (Parser.rounds first) (Parser.rounds second) := by
  intro cursor short
  induction size : cursor.rest.length using Nat.strongRecOn generalizing cursor with
  | ind size inductionHypothesis =>
      subst size
      rw [read_rounds, read_rounds, ← agree cursor short]
      split
      · rfl
      · next value next read =>
          split
          · next further =>
              have shorter := Cursor.length_lt_of_offset_lt (le_of_read read) further
              rw [inductionHypothesis _ shorter next (by omega) rfl]
          · rfl
      · rfl
      · rfl

theorem AgreeBelow.many (agree : AgreeBelow bound first second) :
    AgreeBelow bound (Parser.many first) (Parser.many second) :=
  agree.optional.rounds

theorem AgreeBelow.separated1 (agree : AgreeBelow bound first second) (separator : Parser Unit) :
    AgreeBelow bound (Parser.separated1 separator first) (Parser.separated1 separator second) := by
  refine .bind agree fun _ => .bind (.many (.bind (.refl _) fun _ => agree)) fun _ => .refl _

theorem AgreeBelow.separated (agree : AgreeBelow bound first second) (separator : Parser Unit) :
    AgreeBelow bound (Parser.separated separator first) (Parser.separated separator second) :=
  .bind (agree.separated1 separator).optional fun _ => .refl _

end Agreement

section Fix

variable {ι : Type} {step : (ι → Parser α) → ι → Parser α}

/-- What the step makes of a text depends only on what the family makes of shorter texts. -/
def Guarded (step : (ι → Parser α) → ι → Parser α) : Prop :=
  ∀ (bound : Nat) (first second : ι → Parser α),
    (∀ index, AgreeBelow bound (first index) (second index)) →
      ∀ index, AgreeBelow (bound + 1) (step first index) (step second index)

/-- Any number of unfoldings is enough that is not smaller than the length of the text. -/
theorem Guarded.iterate (guarded : Guarded step) (many few : List Char)
    (less : few.length ≤ many.length) (index : ι) :
    AgreeBelow (few.length + 1) (fix.iterate step many index) (fix.iterate step few index) := by
  induction many generalizing few index with
  | nil =>
      cases few with
      | nil => exact .refl _
      | cons character few => exact absurd less (Nat.not_succ_le_zero _)
  | cons character many inductionHypothesis =>
      cases few with
      | nil =>
          apply guarded
          intro index cursor short
          exact absurd short (Nat.not_lt_zero _)
      | cons first few =>
          apply guarded
          intro index
          exact inductionHypothesis few (Nat.le_of_succ_le_succ less) index

/-- The family may be unfolded more often than there are characters left. -/
theorem Guarded.read_fix (guarded : Guarded step) {text : List Char} {cursor : Cursor}
    (enough : cursor.rest.length ≤ text.length) (index : ι) :
    (fix step index).read cursor = (fix.iterate step text index).read cursor :=
  (guarded.iterate text cursor.rest enough index cursor (Nat.lt_succ_self _)).symm

/-- A guarded family satisfies its own equation. -/
theorem Guarded.fix_eq (guarded : Guarded step) (index : ι) :
    fix step index = step (fix step) index := by
  have pointwise : (fix step index).read = (step (fix step) index).read := by
    funext cursor
    have unfolded : AgreeBelow (cursor.rest.length + 1) (fix.iterate step cursor.rest index)
        (step (fix step) index) := by
      cases text : cursor.rest with
      | nil =>
          apply guarded
          intro index cursor short
          exact absurd short (Nat.not_lt_zero _)
      | cons character rest =>
          apply guarded
          intro index shorter short
          rw [List.length_cons] at short
          exact guarded.iterate rest shorter.rest (by omega) index shorter (by omega)
    exact unfolded cursor (Nat.lt_succ_self _)
  exact eq_of_read pointwise

end Fix

end SoftRules.Parser
