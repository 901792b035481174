import SoftRules.Proofs.Parser.Unfolding

/-!
Parsers that get on.

A parser stalls where a round of one of its loops answers without having read anything, or where a
recursive production is left with no unfolding. Two parsers keep pace on short texts if they make
the same of them and do not stall there. Like agreement, pace is kept combinator by combinator, and
a loop keeps it if each of its rounds that answers reads something. Such a loop needs no check: it
is one round, followed by the loop itself.
-/

set_option autoImplicit false

namespace SoftRules

/-- One of the complaints is about missing progress. -/
def ParseError.IsStall (error : ParseError) : Prop :=
  ∃ complaint ∈ error.complaints, complaint.cause = .mismatch .progress

theorem ParseError.isStall_within {cause : Cause} {offset : Nat} {error : ParseError} :
    (error.within cause offset).IsStall ↔ cause = .mismatch .progress ∨ error.IsStall := by
  simp [IsStall, within, complaints]

theorem ParseError.isStall_single {cause : Cause} {offset : Nat} :
    IsStall ⟨⟨cause, offset⟩, []⟩ ↔ cause = .mismatch .progress := by
  simp [IsStall, complaints]

def Outcome.Stalls {α : Type} : Outcome α → Prop
  | .accept _ _ => False
  | .reject error => error.IsStall
  | .abort error => error.IsStall

namespace Parser

variable {α β : Type}

/-- Both parsers make the same of the text, and do not stall. -/
def KeepPaceAt (cursor : Cursor) (first second : Parser α) : Prop :=
  first.read cursor = second.read cursor ∧ ¬ (first.read cursor).Stalls

/-- The parsers keep pace on every text that is shorter than the bound. -/
def KeepPace (bound : Nat) (first second : Parser α) : Prop :=
  ∀ cursor, cursor.rest.length < bound → KeepPaceAt cursor first second

section Steps

variable {bound : Nat} {first second : Parser α} {further other : α → Parser β}

theorem KeepPace.below (pace : KeepPace (bound + 1) first second) : KeepPace bound first second :=
  fun cursor short => pace cursor (Nat.lt_succ_of_lt short)

theorem keepPace_pure (value : α) : KeepPace bound (pure value) (pure value) :=
  fun _ _ => ⟨rfl, id⟩

theorem keepPace_offset : KeepPace bound Parser.offset Parser.offset := fun _ _ => ⟨rfl, id⟩

theorem keepPace_rest : KeepPace bound Parser.rest Parser.rest := fun _ _ => ⟨rfl, id⟩

theorem keepPace_skip (count : Nat) : KeepPace bound (skip count) (skip count) :=
  fun _ _ => ⟨rfl, id⟩

theorem keepPace_reject {error : ParseError} (noStall : ¬ error.IsStall) :
    KeepPace bound (reject error : Parser α) (reject error) :=
  fun _ _ => ⟨rfl, noStall⟩

theorem keepPace_fail {cause : ParseError.Cause} (noStall : cause ≠ .mismatch .progress) :
    KeepPace bound (fail cause : Parser α) (fail cause) :=
  fun _ _ => ⟨rfl, fun stalls => noStall (ParseError.isStall_single.mp stalls)⟩

theorem KeepPaceAt.bind {cursor : Cursor} (pace : KeepPaceAt cursor first second)
    (paceAfter : ∀ value next, first.read cursor = .accept value next →
      KeepPaceAt next (further value) (other value)) :
    KeepPaceAt cursor (first >>= further) (second >>= other) := by
  obtain ⟨same, noStall⟩ := pace
  unfold KeepPaceAt
  rw [read_bind, read_bind, ← same]
  cases read : first.read cursor with
  | accept value next => exact paceAfter value next read
  | reject error =>
      rw [read] at noStall
      exact ⟨rfl, noStall⟩
  | abort error =>
      rw [read] at noStall
      exact ⟨rfl, noStall⟩

theorem KeepPace.bind (pace : KeepPace bound first second)
    (paceAfter : ∀ value, KeepPace bound (further value) (other value)) :
    KeepPace bound (first >>= further) (second >>= other) := by
  intro cursor short
  refine (pace cursor short).bind fun value next read => ?_
  exact paceAfter value next (Nat.lt_of_le_of_lt (length_le_of_read read) short)

/-- Behind a parser that consumes something, pace need be kept on shorter texts only. -/
theorem KeepPace.guard (pace : KeepPace (bound + 1) first second) (consumes : first.Consumes)
    (paceAfter : ∀ value, KeepPace bound (further value) (other value)) :
    KeepPace (bound + 1) (first >>= further) (second >>= other) := by
  intro cursor short
  refine (pace cursor short).bind fun value next read => ?_
  have shorter := consumes _ _ _ read
  exact paceAfter value next (by omega)

theorem keepPace_satisfy (accepts : Char → Bool) {kind : Mismatch} (noStall : kind ≠ .progress) :
    KeepPace bound (satisfy accepts kind) (satisfy accepts kind) := by
  have fails : KeepPace bound (mismatch kind : Parser Char) (mismatch kind) :=
    keepPace_fail (by simpa using noStall)
  refine .bind keepPace_rest fun text => ?_
  split
  · exact fails
  · split
    · exact .bind (keepPace_skip 1) fun _ => keepPace_pure _
    · exact fails

theorem keepPace_char (expected : Char) : KeepPace bound (char expected) (char expected) :=
  .bind (keepPace_satisfy _ (by decide)) fun _ => keepPace_pure _

theorem keepPace_takeWhile (accepts : Char → Bool) :
    KeepPace bound (takeWhile accepts) (takeWhile accepts) :=
  .bind keepPace_rest fun _ => .bind (keepPace_skip _) fun _ => keepPace_pure _

theorem keepPace_takeWhile1 (accepts : Char → Bool) {kind : Mismatch}
    (noStall : kind ≠ .progress) :
    KeepPace bound (takeWhile1 accepts kind) (takeWhile1 accepts kind) :=
  .bind (keepPace_satisfy _ noStall) fun _ => .bind (keepPace_takeWhile _) fun _ => keepPace_pure _

theorem keepPace_word (expected : List Char) :
    KeepPace bound (word expected) (word expected) := by
  refine .bind keepPace_rest fun text => ?_
  split
  · exact keepPace_skip _
  · exact keepPace_fail (by decide)

theorem keepPace_takeUntil (stop : List Char → Bool) {cause : ParseError.Cause}
    (noStall : cause ≠ .mismatch .progress) :
    KeepPace bound (takeUntil stop cause) (takeUntil stop cause) := by
  refine .bind keepPace_rest fun text => ?_
  split
  · exact .bind (keepPace_skip _) fun _ => keepPace_pure _
  · exact keepPace_fail noStall

end Steps

section Alternatives

variable {bound : Nat} {first second : Parser α}

theorem KeepPace.recover (pace : KeepPace bound first second)
    {recovery other : ParseError → Parser α}
    (paceAfter : ∀ error, ¬ error.IsStall → KeepPace bound (recovery error) (other error)) :
    KeepPace bound (Parser.recover first recovery) (Parser.recover second other) := by
  intro cursor short
  obtain ⟨same, noStall⟩ := pace cursor short
  simp only [KeepPaceAt, Parser.recover, ← same]
  cases read : first.read cursor with
  | accept value next => exact ⟨rfl, id⟩
  | reject error =>
      rw [read] at noStall
      exact paceAfter error noStall cursor short
  | abort error =>
      rw [read] at noStall
      exact ⟨rfl, noStall⟩

theorem KeepPace.explain (pace : KeepPace bound first second) {cause : ParseError.Cause}
    (noStall : cause ≠ .mismatch .progress) :
    KeepPace bound (Parser.explain cause first) (Parser.explain cause second) := by
  intro cursor short
  obtain ⟨same, steady⟩ := pace cursor short
  have stays {error : ParseError} (inner : ¬ error.IsStall) :
      ¬ (error.within cause cursor.offset).IsStall := by
    rw [ParseError.isStall_within]
    exact not_or.mpr ⟨noStall, inner⟩
  refine ⟨by simp only [Parser.explain, same], ?_⟩
  simp only [Parser.explain]
  generalize first.read cursor = outcome at steady
  cases outcome with
  | accept value next => exact id
  | reject error => exact stays steady
  | abort error => exact stays steady

theorem KeepPace.expecting (pace : KeepPace bound first second) (expectation : Expectation) :
    KeepPace bound (Parser.expecting expectation first) (Parser.expecting expectation second) :=
  pace.explain (fun same => by cases same)

theorem KeepPace.optional (pace : KeepPace bound first second) :
    KeepPace bound (Parser.optional first) (Parser.optional second) :=
  .recover (.bind pace fun _ => keepPace_pure _) fun _ _ => keepPace_pure _

theorem KeepPace.commit (pace : KeepPace bound first second) :
    KeepPace bound (Parser.commit first) (Parser.commit second) :=
  .recover pace fun _ noStall _ _ => ⟨rfl, noStall⟩

/-- Alternatives keep pace if they do so one by one. -/
inductive AllKeepPace (bound : Nat) : List (Parser α) → List (Parser α) → Prop
  | nil : AllKeepPace bound [] []
  | cons {first second : Parser α} {firsts seconds : List (Parser α)}
      (pace : KeepPace bound first second) (others : AllKeepPace bound firsts seconds) :
      AllKeepPace bound (first :: firsts) (second :: seconds)

theorem AllKeepPace.map {ι : Type} {first second : ι → Parser α}
    (pace : ∀ index, KeepPace bound (first index) (second index)) (indices : List ι) :
    AllKeepPace bound (indices.map first) (indices.map second) := by
  induction indices with
  | nil => exact .nil
  | cons index indices inductionHypothesis => exact .cons (pace index) inductionHypothesis

theorem AllKeepPace.firstOf {firsts seconds : List (Parser α)}
    (pace : AllKeepPace bound firsts seconds) :
    KeepPace bound (Parser.firstOf firsts) (Parser.firstOf seconds) := by
  refine .bind keepPace_offset fun start => ?_
  have noStall : ¬ ParseError.IsStall ⟨⟨.mismatch .alternatives, start⟩, []⟩ := by
    rw [ParseError.isStall_single]
    decide
  generalize (⟨⟨.mismatch .alternatives, start⟩, []⟩ : ParseError) = error at noStall ⊢
  induction pace generalizing error with
  | nil => exact keepPace_reject noStall
  | cons pace _ inductionHypothesis =>
      refine .recover pace fun inner stays => inductionHypothesis _ ?_
      rw [ParseError.isStall_within]
      exact not_or.mpr ⟨by decide, stays⟩

theorem KeepPace.refuse (pace : KeepPace bound first second) :
    KeepPace bound (Parser.refuse first) (Parser.refuse second) := by
  intro cursor short
  obtain ⟨same, noStall⟩ := pace cursor short
  have fails : KeepPace bound (mismatch .negation : Parser Unit) (mismatch .negation) :=
    keepPace_fail (by decide)
  refine ⟨by simp only [Parser.refuse, same], ?_⟩
  simp only [Parser.refuse]
  generalize first.read cursor = outcome at noStall
  cases outcome with
  | accept value next => exact (fails cursor short).2
  | reject error => exact id
  | abort error => exact noStall

theorem KeepPace.located [Located α] (pace : KeepPace bound first second) :
    KeepPace bound (Parser.located first) (Parser.located second) :=
  .bind keepPace_offset fun _ => .bind pace fun _ => .bind keepPace_offset fun _ => keepPace_pure _

theorem KeepPace.consumed (pace : KeepPace bound first second) :
    KeepPace bound (Parser.consumed first) (Parser.consumed second) :=
  .bind keepPace_offset fun _ => .bind keepPace_rest fun _ => .bind pace fun _ =>
    .bind keepPace_offset fun _ => keepPace_pure _

theorem KeepPace.convert (pace : KeepPace bound first second)
    {conversion : α → Except ParseError.Cause β}
    (noStall : ∀ value, conversion value ≠ .error (.mismatch .progress)) :
    KeepPace bound (Parser.convert first conversion) (Parser.convert second conversion) := by
  refine .bind keepPace_offset fun start => .bind pace fun value => ?_
  split
  · exact keepPace_pure _
  · next cause failed =>
      refine keepPace_reject ?_
      rw [ParseError.isStall_single]
      rintro rfl
      exact noStall value failed

end Alternatives

/-- A parser that never stalls reports no stall of a whole text. -/
theorem KeepPace.run {parser : Parser α} (pace : ∀ bound, KeepPace bound parser parser)
    {text : List Char} {error : ParseError} (failed : parser.run text = .error error) :
    ¬ error.IsStall := by
  have noStall := (pace _ (.start text) (Nat.lt_succ_self _)).2
  simp only [Parser.run] at failed
  generalize parser.read (.start text) = outcome at noStall failed
  cases outcome with
  | accept value last =>
      simp only at failed
      split at failed
      · cases failed
      · cases failed
        rw [ParseError.isStall_single]
        decide
  | reject inner =>
      cases failed
      exact noStall
  | abort inner =>
      cases failed
      exact noStall

/-! Loops. -/

/-- A round that answers has read something. -/
def Advances (round : Parser (Option α)) : Prop :=
  ∀ cursor value next, round.read cursor = .accept (some value) next →
    next.rest.length < cursor.rest.length

/-- One round of a loop and, if it answers, the others behind it. Nothing is checked in between. -/
def roundThen (round : Parser (Option α)) (others : Parser (List α)) : Parser (List α) where
  read cursor :=
    match round.read cursor with
    | .accept none _ => .accept [] cursor
    | .accept (some value) next => (do return value :: (← others) : Parser (List α)).read next
    | .reject error => .reject error
    | .abort error => .abort error
  follows cursor := by
    split
    · exact cursor.le_refl
    · next accepted => exact .trans (le_of_read accepted) (Parser.follows _ _)
    all_goals trivial

section Loops

variable {bound : Nat} {round : Parser (Option α)}

theorem Advances.optional {parser : Parser α} (consumes : parser.Consumes) :
    (Parser.optional parser).Advances := by
  intro cursor value next accepted
  have consumesSome : (do return some (← parser) : Parser (Option α)).Consumes := .bind consumes
  simp only [Parser.optional, Parser.recover] at accepted
  split at accepted
  · next read =>
      cases accepted
      exact consumesSome _ _ _ read
  · cases accepted
  · cases accepted

theorem advances_none : (pure none : Parser (Option α)).Advances := by
  intro cursor value next accepted
  cases accepted

theorem Advances.after {parser : Parser β} {further : β → Parser (Option α)}
    (advances : ∀ value, (further value).Advances) : (parser >>= further).Advances := by
  intro cursor value next accepted
  rw [read_bind] at accepted
  split at accepted
  · next middle read =>
      have before := length_le_of_read read
      have after := advances _ _ _ _ accepted
      omega
  all_goals cases accepted

/-- What follows has to advance only where nothing was found before. -/
theorem Advances.bind {parser : Parser (Option β)} {further : Option β → Parser (Option α)}
    (first : parser.Advances) (others : (further none).Advances) :
    (parser >>= further).Advances := by
  intro cursor value next accepted
  rw [read_bind] at accepted
  split at accepted
  · next found middle read =>
      cases found with
      | none =>
          have before := length_le_of_read read
          have after := others _ _ _ accepted
          omega
      | some item =>
          have before := first _ _ _ read
          have after := length_le_of_read accepted
          omega
  all_goals cases accepted

/-- The check of a loop that gets on is not needed. -/
theorem Advances.rounds_eq (advances : round.Advances) :
    rounds round = roundThen round (rounds round) := by
  apply eq_of_read
  funext cursor
  rw [read_rounds]
  simp only [roundThen]
  cases read : round.read cursor with
  | accept answer next =>
      cases answer with
      | none => rfl
      | some value =>
          have further := Cursor.offset_lt_of_length_lt (le_of_read read) (advances _ _ _ read)
          simp only [further, if_true, read_bind]
          cases (rounds round).read next <;> rfl
  | reject error => rfl
  | abort error => rfl

theorem KeepPace.roundThen {second : Parser (Option α)} {others more : Parser (List α)}
    (pace : KeepPace (bound + 1) round second) (advances : round.Advances)
    (paceAfter : KeepPace bound others more) :
    KeepPace (bound + 1) (Parser.roundThen round others) (Parser.roundThen second more) := by
  intro cursor short
  obtain ⟨same, noStall⟩ := pace cursor short
  simp only [KeepPaceAt, Parser.roundThen, ← same]
  cases read : round.read cursor with
  | accept answer next =>
      cases answer with
      | none => exact ⟨rfl, id⟩
      | some value =>
          have shorter := advances _ _ _ read
          have pace := paceAfter.bind fun values => keepPace_pure (value :: values)
          exact pace next (by omega)
  | reject error =>
      rw [read] at noStall
      exact ⟨rfl, noStall⟩
  | abort error =>
      rw [read] at noStall
      exact ⟨rfl, noStall⟩

theorem KeepPace.rounds (pace : ∀ bound, KeepPace bound round round) (advances : round.Advances)
    (bound : Nat) : KeepPace bound (Parser.rounds round) (Parser.rounds round) := by
  induction bound with
  | zero => exact fun cursor short => absurd short (Nat.not_lt_zero _)
  | succ bound inductionHypothesis =>
      rw [advances.rounds_eq]
      exact .roundThen (pace _) advances inductionHypothesis

end Loops

end Parser

end SoftRules
