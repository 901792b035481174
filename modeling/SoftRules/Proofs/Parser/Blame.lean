import SoftRules.Parser.Basic
import Mathlib.Data.List.Basic

/-!
What a parser complains about. Where a parser fails, the complaints of its error were made at places
of the text, each at or behind the one around it and none in front of the place where the parser was
started. Every combinator keeps to this.
-/

set_option autoImplicit false

namespace SoftRules

open SoftRules.ParseError

/-- The complaints were made at places from the cursor on, each at or behind the one before. -/
inductive Trace : Cursor → List Complaint → Prop
  | nil (cursor : Cursor) : Trace cursor []
  | cons {cursor place : Cursor} {complaint : Complaint} {inner : List Complaint}
      (forward : cursor ≤ place) (isPlace : complaint.offset = place.offset)
      (others : Trace place inner) : Trace cursor (complaint :: inner)

namespace Trace

variable {cursor next : Cursor} {complaints : List Complaint}

theorem mono (trace : Trace next complaints) (forward : cursor ≤ next) :
    Trace cursor complaints := by
  cases trace with
  | nil => exact .nil cursor
  | cons further isPlace others => exact .cons (Cursor.le_trans forward further) isPlace others

theorem single (cause : Cause) (forward : cursor ≤ next) : Trace cursor [⟨cause, next.offset⟩] :=
  .cons forward rfl (.nil next)

theorem within (cause : Cause) {error : ParseError} (trace : Trace cursor error.complaints) :
    Trace cursor (error.within cause cursor.offset).complaints :=
  .cons (Cursor.le_refl cursor) rfl trace

end Trace

/-- If there is an error, then its complaints are about places from the cursor on. -/
def Outcome.Traced {α : Type} (cursor : Cursor) : Outcome α → Prop
  | .accept _ _ => True
  | .reject error => Trace cursor error.complaints
  | .abort error => Trace cursor error.complaints

theorem Outcome.Traced.mono {α : Type} {cursor next : Cursor} {outcome : Outcome α}
    (traced : outcome.Traced next) (forward : cursor ≤ next) : outcome.Traced cursor := by
  cases outcome with
  | accept _ _ => trivial
  | reject error => exact Trace.mono traced forward
  | abort error => exact Trace.mono traced forward

namespace Parser

variable {α β : Type}

/-- Wherever the parser fails, it complains about places from there on. -/
def Blames (parser : Parser α) : Prop := ∀ cursor, (parser.read cursor).Traced cursor

section Steps

variable {parser : Parser α} {further : α → Parser β}

theorem blames_pure (value : α) : (pure value : Parser α).Blames := fun _ => trivial

theorem blames_offset : Parser.offset.Blames := fun _ => trivial

theorem blames_rest : Parser.rest.Blames := fun _ => trivial

theorem blames_skip (count : Nat) : (skip count).Blames := fun _ => trivial

/-- What was read before only moves the complaints of the rest forward. -/
theorem Blames.bind (first : parser.Blames) (others : ∀ value, (further value).Blames) :
    (parser >>= further).Blames := by
  intro cursor
  have traced := first cursor
  rw [read_bind]
  cases read : parser.read cursor with
  | accept value next => exact (others value next).mono (le_of_read read)
  | reject error => rwa [read] at traced
  | abort error => rwa [read] at traced

theorem blames_fail (cause : Cause) : (fail cause : Parser α).Blames :=
  fun cursor => Trace.single cause cursor.le_refl

theorem blames_satisfy (accepts : Char → Bool) (kind : Mismatch) :
    (satisfy accepts kind).Blames := by
  refine .bind blames_rest fun text => ?_
  split
  · exact blames_fail _
  · split
    · exact .bind (blames_skip 1) fun _ => blames_pure _
    · exact blames_fail _

theorem blames_char (expected : Char) : (char expected).Blames :=
  .bind (blames_satisfy _ _) fun _ => blames_pure _

theorem blames_oneOf (choices : List Char) : (oneOf choices).Blames := blames_satisfy _ _

theorem blames_takeWhile (accepts : Char → Bool) : (takeWhile accepts).Blames :=
  .bind blames_rest fun _ => .bind (blames_skip _) fun _ => blames_pure _

theorem blames_takeWhile1 (accepts : Char → Bool) (kind : Mismatch) :
    (takeWhile1 accepts kind).Blames :=
  .bind (blames_satisfy _ _) fun _ => .bind (blames_takeWhile _) fun _ => blames_pure _

theorem blames_word (expected : List Char) : (word expected).Blames := by
  refine .bind blames_rest fun text => ?_
  split
  · exact blames_skip _
  · exact blames_fail _

theorem blames_takeUntil (stop : List Char → Bool) (cause : Cause) :
    (takeUntil stop cause).Blames := by
  refine .bind blames_rest fun text => ?_
  split
  · exact .bind (blames_skip _) fun _ => blames_pure _
  · exact blames_fail _

end Steps

section Alternatives

variable {parser : Parser α}

/-- A recovery starts where the parser did, and it may use what the parser complained about. -/
theorem traced_recover {recovery : ParseError → Parser α} {cursor : Cursor}
    (first : (parser.read cursor).Traced cursor)
    (others : ∀ error, Trace cursor error.complaints →
      ((recovery error).read cursor).Traced cursor) :
    ((recover parser recovery).read cursor).Traced cursor := by
  simp only [recover]
  cases read : parser.read cursor with
  | accept value next => trivial
  | reject error =>
      rw [read] at first
      exact others error first
  | abort error => rwa [read] at first

theorem Blames.explain (cause : Cause) (blames : parser.Blames) : (explain cause parser).Blames := by
  intro cursor
  have traced := blames cursor
  simp only [Parser.explain]
  cases read : parser.read cursor with
  | accept value next => trivial
  | reject error =>
      rw [read] at traced
      exact Trace.within cause traced
  | abort error =>
      rw [read] at traced
      exact Trace.within cause traced

theorem Blames.expecting (expectation : Expectation) (blames : parser.Blames) :
    (expecting expectation parser).Blames := blames.explain _

theorem Blames.refuse (blames : parser.Blames) : (refuse parser).Blames := by
  intro cursor
  have traced := blames cursor
  simp only [Parser.refuse]
  cases read : parser.read cursor with
  | accept value next => exact blames_fail _ cursor
  | reject error => trivial
  | abort error => rwa [read] at traced

theorem traced_firstOf_go {parsers : List (Parser α)} (blames : parsers.Forall Blames)
    {cursor : Cursor} {error : ParseError} (trace : Trace cursor error.complaints) :
    ((firstOf.go cursor.offset error parsers).read cursor).Traced cursor := by
  induction parsers generalizing error with
  | nil => exact trace
  | cons parser parsers inductionHypothesis =>
      obtain ⟨first, others⟩ := (List.forall_cons _ _ _).mp blames
      exact traced_recover (first cursor) fun inner traced =>
        inductionHypothesis others (Trace.within _ traced)

theorem blames_firstOf {parsers : List (Parser α)} (blames : parsers.Forall Blames) :
    (firstOf parsers).Blames :=
  fun cursor => traced_firstOf_go blames (Trace.single _ cursor.le_refl)

theorem Blames.optional (blames : parser.Blames) : (optional parser).Blames :=
  fun cursor => traced_recover (Blames.bind blames (fun _ => blames_pure _) cursor)
    fun _ _ => trivial

theorem Blames.commit (blames : parser.Blames) : (commit parser).Blames :=
  fun cursor => traced_recover (blames cursor) fun _ trace => trace

theorem Blames.consumed (blames : parser.Blames) : (consumed parser).Blames :=
  .bind blames_offset fun _ => .bind blames_rest fun _ => .bind blames fun _ =>
    .bind blames_offset fun _ => blames_pure _

/-- A conversion that fails is blamed on the start of what was read. -/
theorem Blames.convert {conversion : α → Except Cause β} (blames : parser.Blames) :
    (convert parser conversion).Blames := by
  intro cursor
  have traced := blames cursor
  show ((parser >>= fun value => _).read cursor).Traced cursor
  rw [read_bind]
  cases read : parser.read cursor with
  | accept value next =>
      simp only
      split
      · trivial
      · exact Trace.single _ cursor.le_refl
  | reject error => rwa [read] at traced
  | abort error => rwa [read] at traced

theorem Blames.located [Located α] (blames : parser.Blames) : (located parser).Blames :=
  .bind blames_offset fun _ => .bind blames fun _ => .bind blames_offset fun _ => blames_pure _

end Alternatives

section Repetition

theorem Blames.rounds {round : Parser (Option α)} (blames : round.Blames) :
    (rounds round).Blames := by
  intro cursor
  induction size : cursor.rest.length using Nat.strongRecOn generalizing cursor with
  | ind size inductionHypothesis =>
      subst size
      have traced := blames cursor
      rw [read_rounds]
      cases read : round.read cursor with
      | reject error => rwa [read] at traced
      | abort error => rwa [read] at traced
      | accept found next =>
          cases found with
          | none => trivial
          | some value =>
              simp only
              split
              · next further =>
                  have forward := le_of_read read
                  have others := inductionHypothesis _
                    (Cursor.length_lt_of_offset_lt forward further) next rfl
                  cases outcome : (Parser.rounds round).read next with
                  | accept values last => trivial
                  | reject error =>
                      rw [outcome] at others
                      exact others.mono forward
                  | abort error =>
                      rw [outcome] at others
                      exact others.mono forward
              · exact blames_fail _ cursor

variable {item : Parser α} {separator : Parser Unit}

theorem Blames.many (blames : item.Blames) : (many item).Blames := blames.optional.rounds

theorem Blames.many1 (blames : item.Blames) : (many1 item).Blames :=
  .bind (blames.explain _) fun _ => .bind blames.many fun _ => blames_pure _

theorem Blames.separated1 (between : separator.Blames) (blames : item.Blames) :
    (separated1 separator item).Blames :=
  .bind blames fun _ => .bind (.many (.bind between fun _ => blames)) fun _ => blames_pure _

theorem Blames.separated (between : separator.Blames) (blames : item.Blames) :
    (separated separator item).Blames :=
  .bind (between.separated1 blames).optional fun _ => blames_pure _

theorem Blames.untilEnd (blames : item.Blames) : (untilEnd item).Blames := by
  refine .rounds (.bind (.bind blames_rest fun _ => blames_pure _) fun ended => ?_)
  split
  · exact blames_pure _
  · exact .bind blames fun _ => blames_pure _

theorem blames_fix {ι : Type} {step : (ι → Parser α) → ι → Parser α}
    (preserves : ∀ family : ι → Parser α, (∀ index, (family index).Blames) →
      ∀ index, (step family index).Blames) (index : ι) : (fix step index).Blames := by
  have unfolded (text : List Char) (index : ι) : (fix.iterate step text index).Blames := by
    induction text generalizing index with
    | nil => exact preserves _ (fun _ => blames_fail _) index
    | cons character text inductionHypothesis => exact preserves _ inductionHypothesis index
  exact .bind blames_rest fun text => unfolded text index

end Repetition

/-- An error of a run is about places of the text. -/
theorem Blames.run {parser : Parser α} (blames : parser.Blames) {text : List Char}
    {error : ParseError} (failed : parser.run text = .error error) :
    Trace (.start text) error.complaints := by
  have traced := blames (.start text)
  unfold Parser.run at failed
  split at failed
  · next value last read =>
      split at failed
      · cases failed
      · cases failed
        exact Trace.single _ (le_of_read read)
  · next inner read =>
      cases failed
      rwa [read] at traced
  · next inner read =>
      cases failed
      rwa [read] at traced

end Parser

end SoftRules
