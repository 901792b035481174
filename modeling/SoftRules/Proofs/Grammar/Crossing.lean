import SoftRules.Proofs.Grammar.Coupling

/-!
Texts that are cut off between two periods.

Where a text goes on with a second period, a term that ends in front of both of them tries to go on
as an interval, while the same term ends at the single period of the copy. So the two sides need not
be in step there. The side with the copy has then reached its last period, and it will not read on;
the other side has rejected the text, or it has passed the place of the cut. A production keeps up
loosely with its copy if nothing else can happen.
-/

set_option autoImplicit false

namespace SoftRules.Grammar

open SoftRules.Parser

/-- Only white space and comments are left in front of a period at the end of the text. -/
def Halted (text : List Char) : Prop := space.Reads text ['.'] fun _ => True

theorem halted_period : Halted ['.'] :=
  (solid_cons rfl (by decide) : Solid ['.']).reads_no_space

theorem Halted.rejects_after_space {α : Type} {parser : Parser α} {text : List Char}
    (halted : Halted text) (rejects : parser.Rejects ['.']) :
    (space >>= fun _ => parser).Rejects text :=
  .after halted fun _ _ => rejects

theorem Halted.rejects_spacedToken {text : List Char} {spelling : String} (halted : Halted text)
    (refused : ¬ spelling.toList <+: ['.']) : (spacedToken spelling).Rejects text :=
  .expecting _ (halted.rejects_after_space (.bind (rejects_word refused)))

theorem Halted.head_ne {text : List Char} (halted : Halted text) {character : Char}
    (visible : isSpace character = false) (noComment : character ≠ '%')
    (noPeriod : character ≠ '.') : character ∉ text.head? := by
  intro isFirst
  obtain ⟨others, rfl⟩ := List.head?_eq_some_iff.mp isFirst
  have solid : Solid (character :: others) := solid_cons visible noComment
  obtain ⟨_, _, accepted, -⟩ := halted 0
  have stays := (solid.reads_no_space.answers 0 _ _ accepted).2
  exact noPeriod (List.cons.inj stays).1.symm

namespace Coupling

/-- The first text goes on with a period behind the one that ends the second text. -/
def Crosses : Coupling → Prop
  | same => False
  | cut frame => frame.stop = '.' ∧ frame.whole.head? = some '.'

/-- What is left stands behind the cut. -/
def Beyond : Coupling → List Char → Prop
  | same, _ => False
  | cut frame, rest => rest.length ≤ frame.whole.length

variable {coupling : Coupling}

theorem StopsAt.not_crosses {closing : Char} (stops : coupling.StopsAt closing)
    (noPeriod : closing ≠ '.') : ¬ coupling.Crosses := by
  intro crosses
  cases coupling with
  | same => exact crosses
  | cut frame => exact noPeriod (stops.symm.trans crosses.1)

theorem Beyond.of_length_le {rest rest' : List Char} (beyond : coupling.Beyond rest)
    (shorter : rest'.length ≤ rest.length) : coupling.Beyond rest' := by
  cases coupling with
  | same => exact beyond
  | cut frame => exact Nat.le_trans shorter beyond

/-- If there is an acceptance at all, it ends behind the cut. -/
def Missed {α : Type} (coupling : Coupling) (outcome : Outcome α) : Prop :=
  ∀ value next, outcome = .accept value next → coupling.Beyond next.rest

/-- The outcomes are in step, or the copy was read up to its last period and the text was not. -/
inductive Close {α γ : Type} (coupling : Coupling) (view : α → γ) : Outcome α → Outcome α → Prop
  | inStep {outcome outcome' : Outcome α}
      (inStep : outcome.InStep view coupling.Beside outcome') : Close coupling view outcome outcome'
  | missed {outcome : Outcome α} {value : α} {last : Cursor} (crosses : coupling.Crosses)
      (missed : coupling.Missed outcome) (halted : Halted last.rest) :
      Close coupling view outcome (.accept value last)

/-- The outcomes are in step, or the copy was read up to its last period, or the text was read too
far for the two to meet again. -/
inductive Loose {α γ : Type} (coupling : Coupling) (view : α → γ) : Outcome α → Outcome α → Prop
  | inStep {outcome outcome' : Outcome α}
      (inStep : outcome.InStep view coupling.Beside outcome') : Loose coupling view outcome outcome'
  | halted {outcome : Outcome α} {value : α} {last : Cursor} (crosses : coupling.Crosses)
      (halted : Halted last.rest) : Loose coupling view outcome (.accept value last)
  | beyond {value : α} {next : Cursor} {outcome : Outcome α} (crosses : coupling.Crosses)
      (beyond : coupling.Beyond next.rest) : Loose coupling view (.accept value next) outcome
  | aborted {error : ParseError} {outcome : Outcome α} (crosses : coupling.Crosses) :
      Loose coupling view (.abort error) outcome

end Coupling

variable {α β γ δ : Type} {coupling : Coupling} {view : α → γ} {look : β → δ}

/-- The productions keep up with each other closely. -/
def Closely (coupling : Coupling) (view : α → γ) (first second : Parser α) : Prop :=
  ∀ left right, coupling.Beside left.rest right.rest →
    coupling.Close view (first.read left) (second.read right)

/-- The productions keep up with each other loosely. -/
def Loosely (coupling : Coupling) (view : α → γ) (first second : Parser α) : Prop :=
  ∀ left right, coupling.Beside left.rest right.rest →
    coupling.Loose view (first.read left) (second.read right)

variable {first second : Parser α} {further further' : α → Parser β}

theorem Parallel.closely (parallel : Parallel view coupling.Beside first second) :
    Closely coupling view first second :=
  fun left right beside => .inStep (parallel left right beside)

theorem Parallel.loosely (parallel : Parallel view coupling.Beside first second) :
    Loosely coupling view first second :=
  fun left right beside => .inStep (parallel left right beside)

theorem Closely.parallel (closely : Closely coupling view first second)
    (noCrossing : ¬ coupling.Crosses) : Parallel view coupling.Beside first second := by
  intro left right beside
  have close := closely left right beside
  unfold InStep
  generalize first.read left = outcome at close ⊢
  generalize second.read right = outcome' at close ⊢
  cases close with
  | inStep inStep => exact inStep
  | missed crosses _ _ => exact absurd crosses noCrossing

theorem Loosely.parallel (loosely : Loosely coupling view first second)
    (noCrossing : ¬ coupling.Crosses) : Parallel view coupling.Beside first second := by
  intro left right beside
  have loose := loosely left right beside
  unfold InStep
  generalize first.read left = outcome at loose ⊢
  generalize second.read right = outcome' at loose ⊢
  cases loose with
  | inStep inStep => exact inStep
  | halted crosses _ => exact absurd crosses noCrossing
  | beyond crosses _ => exact absurd crosses noCrossing
  | aborted crosses => exact absurd crosses noCrossing

theorem missed_bind {cursor : Cursor} (missed : coupling.Missed (first.read cursor)) :
    coupling.Missed ((first >>= further).read cursor) := by
  intro value last accepted
  rw [read_bind] at accepted
  cases read : first.read cursor with
  | accept found next =>
      rw [read] at accepted
      exact (missed found next read).of_length_le (length_le_of_read accepted)
  | reject error =>
      rw [read] at accepted
      cases accepted
  | abort error =>
      rw [read] at accepted
      cases accepted

theorem loose_of_missed {outcome : Outcome α} {error : ParseError} (crosses : coupling.Crosses)
    (missed : coupling.Missed outcome) : coupling.Loose view outcome (.reject error) := by
  cases outcome with
  | accept value next => exact .beyond crosses (missed value next rfl)
  | reject error => exact .inStep .reject
  | abort error => exact .aborted crosses

/-! Close productions. -/

section Close

theorem Closely.after (parallel : Parallel view coupling.Beside first second)
    (behind : ∀ value value', view value = view value' →
      Closely coupling look (further value) (further' value')) :
    Closely coupling look (first >>= further) (second >>= further') := by
  intro left right beside
  refine (parallel left right beside).bind_related (coupling.Close look)
    (fun _ _ => .inStep .reject) (fun _ _ => .inStep .abort) ?_
  intro value value' next last same nextBeside
  exact behind value value' same next last nextBeside

/-- Behind close productions the two sides go on or fail together, or the copy goes on alone from
its last period. -/
theorem Coupling.Close.bind_related (relates : Outcome β → Outcome β → Prop) {left right : Cursor}
    (close : coupling.Close view (first.read left) (second.read right))
    (rejects : ∀ error error', relates (.reject error) (.reject error'))
    (aborts : ∀ error error', relates (.abort error) (.abort error'))
    (behind : ∀ value value' next last, view value = view value' →
      coupling.Beside next.rest last.rest →
        relates ((further value).read next) ((further' value').read last))
    (alone : ∀ value last, coupling.Crosses → coupling.Missed ((first >>= further).read left) →
      Halted last.rest → relates ((first >>= further).read left) ((further' value).read last)) :
    relates ((first >>= further).read left) ((second >>= further').read right) := by
  generalize read : first.read left = outcome at close
  generalize alsoRead : second.read right = outcome' at close
  cases close with
  | inStep inStep =>
      rw [← read, ← alsoRead] at inStep
      exact InStep.bind_related relates inStep rejects aborts behind
  | @missed value last crosses missed halted =>
      rw [← read] at missed
      rw [@read_bind _ _ second, alsoRead]
      exact alone value last crosses (missed_bind missed) halted

theorem Coupling.Close.map {result result' : α → β} {left right : Cursor}
    (close : coupling.Close view (first.read left) (second.read right))
    (same : ∀ value value', view value = view value' →
      look (result value) = look (result' value')) :
    coupling.Close look ((first >>= fun value => pure (result value)).read left)
      ((second >>= fun value => pure (result' value)).read right) := by
  refine close.bind_related (coupling.Close look) (fun _ _ => .inStep .reject)
    (fun _ _ => .inStep .abort) ?_ ?_
  · intro value value' next last sameValue nextBeside
    exact .inStep (.accept (same value value' sameValue) nextBeside)
  · intro value last crosses missed halted
    exact .missed crosses missed halted

/-- A production that can follow the last period keeps close. -/
theorem Closely.follow (closely : Closely coupling view first second)
    (behind : ∀ value value', view value = view value' →
      Closely coupling look (further value) (further' value'))
    (stays : ∀ value text, Halted text → ∃ left, (further' value).Reads text left (fun _ => True) ∧
      Halted left) :
    Closely coupling look (first >>= further) (second >>= further') := by
  intro left right beside
  refine (closely left right beside).bind_related (coupling.Close look)
    (fun _ _ => .inStep .reject) (fun _ _ => .inStep .abort) ?_ ?_
  · intro value value' next last same nextBeside
    exact behind value value' same next last nextBeside
  · intro value last crosses missed halted
    obtain ⟨rest, reads, stillHalted⟩ := stays value last.rest halted
    obtain ⟨result, stop, accepted, -⟩ := reads last.offset
    have isAccepted : (further' value).read last = .accept result ⟨stop, rest⟩ := accepted
    rw [isAccepted]
    exact .missed crosses missed stillHalted

theorem Closely.map {result result' : α → β} (closely : Closely coupling view first second)
    (same : ∀ value value', view value = view value' →
      look (result value) = look (result' value')) :
    Closely coupling look (first >>= fun value => pure (result value))
      (second >>= fun value => pure (result' value)) :=
  fun left right beside => (closely left right beside).map same

/-- The round goes wrong or passes the cut, where the copy is left in front of its last period. -/
structure RoundMissed (coupling : Coupling) (round round' : Parser (Option α))
    (left right : Cursor) : Prop where
  crosses : coupling.Crosses
  goesOn : ∀ next, round.read left ≠ .accept none next
  beyond : ∀ value next, round.read left = .accept (some value) next → coupling.Beyond next.rest
  ends : ∃ last, round'.read right = .accept none last
  halted : Halted right.rest

theorem RoundMissed.close {round round' : Parser (Option α)} {left right : Cursor}
    (missed : RoundMissed coupling round round' left right) :
    coupling.Close (List.map view) ((rounds round).read left) ((rounds round').read right) := by
  obtain ⟨last, ends⟩ := missed.ends
  have isEnd : (rounds round').read right = .accept [] right := by rw [read_rounds, ends]
  rw [isEnd]
  refine .missed missed.crosses ?_ missed.halted
  intro values stop accepted
  rw [read_rounds] at accepted
  cases read : round.read left with
  | accept found next =>
      cases found with
      | none => exact absurd read (missed.goesOn next)
      | some value =>
          rw [read] at accepted
          simp only at accepted
          split at accepted
          · cases others : (rounds round).read next with
            | accept values last =>
                rw [others] at accepted
                cases accepted
                exact (missed.beyond value next read).of_length_le (length_le_of_read others)
            | reject error => rw [others] at accepted; cases accepted
            | abort error => rw [others] at accepted; cases accepted
          · cases accepted
  | reject error => rw [read] at accepted; cases accepted
  | abort error => rw [read] at accepted; cases accepted

theorem closely_rounds {round round' : Parser (Option α)}
    (inStep : ∀ left right, coupling.Beside left.rest right.rest →
      RoundInStep view coupling.Beside (round.read left) (round'.read right) ∨
        RoundMissed coupling round round' left right) :
    Closely coupling (List.map view) (rounds round) (rounds round') := by
  have each (left right : Cursor) (beside : coupling.Beside left.rest right.rest) :
      RoundInStep view coupling.Beside (round.read left) (round'.read right) ∨
        coupling.Close (List.map view) ((rounds round).read left) ((rounds round').read right) :=
    (inStep left right beside).imp_right RoundMissed.close
  refine rounds_related (coupling.Close (List.map view)) coupling.keepsLag
    (fun _ _ beside => .inStep (.accept rfl beside)) (fun _ _ => .inStep .reject)
    (fun _ _ => .inStep .abort) ?_ each
  intro others others' value value' next last same close
  refine close.map fun values values' sameOthers => ?_
  rw [List.map_cons, List.map_cons, same, sameOthers]

theorem Closely.explain (cause : ParseError.Cause)
    (closely : Closely coupling view first second) :
    Closely coupling view (Parser.explain cause first) (Parser.explain cause second) := by
  intro left right beside
  have close := closely left right beside
  simp only [Parser.explain]
  generalize first.read left = outcome at close ⊢
  generalize second.read right = outcome' at close ⊢
  cases close with
  | inStep inStep =>
      cases inStep with
      | accept same nextBeside => exact .inStep (.accept same nextBeside)
      | reject => exact .inStep .reject
      | abort => exact .inStep .abort
  | missed crosses missed halted =>
      refine .missed crosses ?_ halted
      cases outcome with
      | accept value next => exact missed
      | reject error =>
          intro value next accepted
          cases accepted
      | abort error =>
          intro value next accepted
          cases accepted

theorem Closely.loosely (closely : Closely coupling view first second) :
    Loosely coupling view first second := by
  intro left right beside
  have close := closely left right beside
  generalize first.read left = outcome at close ⊢
  generalize second.read right = outcome' at close ⊢
  cases close with
  | inStep inStep => exact .inStep inStep
  | missed crosses _ halted => exact .halted crosses halted

/-- What cannot follow the last period is rejected behind a production that has reached it. -/
theorem Closely.bind (closely : Closely coupling view first second)
    (behind : ∀ value value', view value = view value' →
      Loosely coupling look (further value) (further' value'))
    (rejects : ∀ value text, Halted text → (further' value).Rejects text) :
    Loosely coupling look (first >>= further) (second >>= further') := by
  intro left right beside
  refine (closely left right beside).bind_related (coupling.Loose look)
    (fun _ _ => .inStep .reject) (fun _ _ => .inStep .abort) ?_ ?_
  · intro value value' next last same nextBeside
    exact behind value value' same next last nextBeside
  · intro value last crosses missed halted
    obtain ⟨error, rejected⟩ := rejects value last.rest halted last.offset
    have isRejected : (further' value).read last = .reject error := rejected
    rw [isRejected]
    exact loose_of_missed crosses missed

end Close

/-! Loose productions. -/

section Loose

theorem Loosely.after (parallel : Parallel view coupling.Beside first second)
    (behind : ∀ value value', view value = view value' →
      Loosely coupling look (further value) (further' value')) :
    Loosely coupling look (first >>= further) (second >>= further') := by
  intro left right beside
  refine (parallel left right beside).bind_related (coupling.Loose look)
    (fun _ _ => .inStep .reject) (fun _ _ => .inStep .abort) ?_
  intro value value' next last same nextBeside
  exact behind value value' same next last nextBeside

/-- A parser that never rejects, and that reads nothing in front of the last period. -/
structure Lenient (parser : Parser α) : Prop where
  stays : ∀ text, Halted text → parser.Reads text text fun _ => True
  answers : ∀ cursor, ¬ parser.RejectsAt cursor

theorem lenient_pure (value : α) : Lenient (pure value : Parser α) where
  stays := fun _ _ => .pure trivial
  answers := by
    rintro cursor ⟨error, rejected⟩
    cases rejected

theorem lenient_optional (rejects : ∀ text, Halted text → first.Rejects text) :
    Lenient (Parser.optional first) where
  stays := fun text halted => (Reads.optional_none (rejects text halted)).imp fun _ _ => trivial
  answers := not_rejectsAt_optional first

theorem lenient_many (consumes : first.Consumes)
    (rejects : ∀ text, Halted text → first.Rejects text) : Lenient (Parser.many first) where
  stays := fun text halted => (Reads.many_nil (rejects text halted)).imp fun _ _ => trivial
  answers := not_rejectsAt_many consumes

theorem Lenient.bind (lenient : Lenient first) (behind : ∀ value, Lenient (further value)) :
    Lenient (first >>= further) where
  stays := fun text halted => .bind (lenient.stays text halted) fun value _ =>
    (behind value).stays text halted
  answers := by
    intro cursor rejects
    rcases rejects.of_bind with rejected | ⟨value, next, -, rejected⟩
    · exact lenient.answers cursor rejected
    · exact (behind value).answers next rejected

/-- Behind a loose production only lenient ones follow. -/
theorem Coupling.Loose.bind {left right : Cursor}
    (loose : coupling.Loose view (first.read left) (second.read right))
    (behind : ∀ value value', view value = view value' →
      Loosely coupling look (further value) (further' value'))
    (lenient : ∀ value, Lenient (further value)) (lenient' : ∀ value, Lenient (further' value)) :
    coupling.Loose look ((first >>= further).read left) ((second >>= further').read right) := by
  rw [read_bind, read_bind]
  generalize first.read left = outcome at loose ⊢
  generalize second.read right = outcome' at loose ⊢
  cases loose with
  | inStep inStep =>
      cases inStep with
      | accept same nextBeside => exact behind _ _ same _ _ nextBeside
      | reject => exact .inStep .reject
      | abort => exact .inStep .abort
  | @halted _ value last crosses halted =>
      obtain ⟨result, stop, accepted, -⟩ := (lenient' value).stays last.rest halted last.offset
      have isAccepted : (further' value).read last = .accept result ⟨stop, last.rest⟩ := accepted
      simp only [isAccepted]
      exact .halted crosses halted
  | @beyond value next _ crosses beyond =>
      simp only
      cases read : (further value).read next with
      | accept result last => exact .beyond crosses (beyond.of_length_le (length_le_of_read read))
      | reject error => exact absurd ⟨error, read⟩ ((lenient value).answers next)
      | abort error => exact .aborted crosses
  | aborted crosses => exact .aborted crosses

theorem Coupling.Loose.map {result result' : α → β} {left right : Cursor}
    (loose : coupling.Loose view (first.read left) (second.read right))
    (same : ∀ value value', view value = view value' →
      look (result value) = look (result' value')) :
    coupling.Loose look ((first >>= fun value => pure (result value)).read left)
      ((second >>= fun value => pure (result' value)).read right) :=
  loose.bind (fun value value' sameValue => Parallel.loosely (.pure (same value value' sameValue)))
    (fun _ => lenient_pure _) (fun _ => lenient_pure _)

theorem Loosely.bind (loosely : Loosely coupling view first second)
    (behind : ∀ value value', view value = view value' →
      Loosely coupling look (further value) (further' value'))
    (lenient : ∀ value, Lenient (further value)) (lenient' : ∀ value, Lenient (further' value)) :
    Loosely coupling look (first >>= further) (second >>= further') :=
  fun left right beside => (loosely left right beside).bind behind lenient lenient'

theorem Loosely.map {result result' : α → β} (loosely : Loosely coupling view first second)
    (same : ∀ value value', view value = view value' →
      look (result value) = look (result' value')) :
    Loosely coupling look (first >>= fun value => pure (result value))
      (second >>= fun value => pure (result' value)) :=
  fun left right beside => (loosely left right beside).map same

theorem Loosely.recover {recovery recovery' : ParseError → Parser α}
    (loosely : Loosely coupling view first second)
    (recovers : ∀ error error', Loosely coupling view (recovery error) (recovery' error')) :
    Loosely coupling view (Parser.recover first recovery) (Parser.recover second recovery') := by
  intro left right beside
  have loose := loosely left right beside
  simp only [Parser.recover]
  generalize first.read left = outcome at loose ⊢
  generalize second.read right = outcome' at loose ⊢
  cases loose with
  | inStep inStep =>
      cases inStep with
      | accept same nextBeside => exact .inStep (.accept same nextBeside)
      | reject => exact recovers _ _ left right beside
      | abort => exact .inStep .abort
  | halted crosses halted => exact .halted crosses halted
  | beyond crosses beyond => exact .beyond crosses beyond
  | aborted crosses => exact .aborted crosses

theorem Loosely.explain (cause : ParseError.Cause)
    (loosely : Loosely coupling view first second) :
    Loosely coupling view (Parser.explain cause first) (Parser.explain cause second) := by
  intro left right beside
  have loose := loosely left right beside
  simp only [Parser.explain]
  generalize first.read left = outcome at loose ⊢
  generalize second.read right = outcome' at loose ⊢
  cases loose with
  | inStep inStep =>
      cases inStep with
      | accept same nextBeside => exact .inStep (.accept same nextBeside)
      | reject => exact .inStep .reject
      | abort => exact .inStep .abort
  | halted crosses halted => exact .halted crosses halted
  | beyond crosses beyond => exact .beyond crosses beyond
  | aborted crosses => exact .aborted crosses

theorem Loosely.expecting (expectation : Expectation)
    (loosely : Loosely coupling view first second) :
    Loosely coupling view (Parser.expecting expectation first)
      (Parser.expecting expectation second) :=
  loosely.explain _

theorem Loosely.commit (loosely : Loosely coupling view first second) :
    Loosely coupling view (Parser.commit first) (Parser.commit second) :=
  loosely.recover fun _ _ _ _ _ => .inStep .abort

theorem Loosely.optional (loosely : Loosely coupling view first second) :
    Loosely coupling (Option.map view) (Parser.optional first) (Parser.optional second) :=
  .recover (loosely.map fun _ _ same => congrArg some same) fun _ _ => Parallel.loosely (.pure rfl)

theorem loosely_firstOf {firsts seconds : List (Parser α)}
    (loosely : List.Forall₂ (Loosely coupling view) firsts seconds) :
    Loosely coupling view (firstOf firsts) (firstOf seconds) := by
  refine .after parallel_offset fun start start' _ => ?_
  generalize (⟨⟨.mismatch .alternatives, start⟩, []⟩ : ParseError) = error
  generalize (⟨⟨.mismatch .alternatives, start'⟩, []⟩ : ParseError) = error'
  induction loosely generalizing error error' with
  | nil => exact fun _ _ _ => .inStep .reject
  | cons first _ inductionHypothesis => exact .recover first fun _ _ => inductionHypothesis _ _

theorem Loosely.located [Located α]
    (keeps : ∀ origin value, view (Located.relocate origin value) = view value)
    (loosely : Loosely coupling view first second) :
    Loosely coupling view (Parser.located first) (Parser.located second) := by
  have lenient (value : α) (start : Nat) : Lenient (do
      let stop ← Parser.offset
      return Located.relocate (some ⟨start, stop⟩) value) := by
    refine .bind ⟨fun _ _ => .offset, ?_⟩ fun _ => lenient_pure _
    rintro cursor ⟨error, rejected⟩
    cases rejected
  refine .after parallel_offset fun start start' _ => ?_
  refine loosely.bind (fun value value' same => ?_) (fun value => lenient value start)
    (fun value => lenient value start')
  refine Parallel.loosely (.bind parallel_offset fun _ _ _ => .pure ?_)
  rw [keeps, keeps, same]

/-- One round of a repetition whose items read something. -/
theorem read_many_of_accept (consumes : first.Consumes) {cursor next : Cursor} {value : α}
    (accepted : first.read cursor = .accept value next) :
    (Parser.many first).read cursor =
      ((Parser.many first) >>= fun values => pure (value :: values)).read next := by
  have further := Cursor.offset_lt_of_length_lt (le_of_read accepted)
    (consumes cursor value next accepted)
  exact read_rounds_of_some (read_optional_of_accept accepted) further

theorem read_many_of_reject {cursor : Cursor} {error : ParseError}
    (rejected : first.read cursor = .reject error) :
    (Parser.many first).read cursor = .accept [] cursor := by
  rw [Parser.many, read_rounds, read_optional_of_reject rejected]

theorem read_many_of_abort {cursor : Cursor} {error : ParseError}
    (aborted : first.read cursor = .abort error) :
    (Parser.many first).read cursor = .abort error := by
  rw [Parser.many, read_rounds, read_optional_of_abort aborted]

theorem Loosely.many (loosely : Loosely coupling view first second)
    (consumes : first.Consumes) (consumes' : second.Consumes)
    (rejects : ∀ text, Halted text → second.Rejects text) :
    Loosely coupling (List.map view) (Parser.many first) (Parser.many second) := by
  intro left right beside
  induction size : left.rest.length using Nat.strongRecOn generalizing left right with
  | ind size inductionHypothesis =>
      subst size
      have loose := loosely left right beside
      generalize read : first.read left = outcome at loose
      generalize read' : second.read right = outcome' at loose
      cases loose with
      | inStep inStep =>
          cases inStep with
          | @accept value value' next last same nextBeside =>
              rw [read_many_of_accept consumes read, read_many_of_accept consumes' read']
              have shorter := consumes _ _ _ read
              refine (inductionHypothesis _ shorter next last nextBeside rfl).map ?_
              intro values values' sameOthers
              rw [List.map_cons, List.map_cons, same, sameOthers]
          | reject =>
              rw [read_many_of_reject read, read_many_of_reject read']
              exact .inStep (.accept rfl beside)
          | abort =>
              rw [read_many_of_abort read, read_many_of_abort read']
              exact .inStep .abort
      | @halted _ value last crosses halted =>
          -- No further item follows the last period, whatever the other side goes on with.
          obtain ⟨error, rejected⟩ := rejects last.rest halted last.offset
          have ends : (Parser.many second).read last = .accept [] last :=
            read_many_of_reject rejected
          rw [read_many_of_accept consumes' read', read_bind, ends]
          exact .halted crosses halted
      | @beyond value next _ crosses beyond =>
          rw [read_many_of_accept consumes read, read_bind]
          cases others : (Parser.many first).read next with
          | accept values last =>
              exact .beyond crosses (beyond.of_length_le (length_le_of_read others))
          | reject error => exact absurd ⟨error, others⟩ (not_rejectsAt_many consumes next)
          | abort error => exact .aborted crosses
      | aborted crosses =>
          rw [read_many_of_abort read]
          exact .aborted crosses

/-- Items between separators that cannot follow the last period. -/
theorem Loosely.separated1 {separator : Parser Unit} (loosely : Loosely coupling view first second)
    (between : Parallel id coupling.Beside separator separator) (consumes : separator.Consumes)
    (rejects : ∀ text, Halted text → separator.Rejects text) :
    Loosely coupling (List.map view) (Parser.separated1 separator first)
      (Parser.separated1 separator second) := by
  have others : Loosely coupling (List.map view) (Parser.many do separator; first)
      (Parser.many do separator; second) :=
    .many (.after between fun _ _ _ => loosely) (.bind consumes) (.bind consumes)
      fun text halted => .bind (rejects text halted)
  have lenient (parser : Parser α) (value : α) : Lenient (do
      let others ← Parser.many (do separator; parser)
      return value :: others) :=
    .bind (lenient_many (.bind consumes) fun text halted => .bind (rejects text halted))
      fun _ => lenient_pure _
  refine loosely.bind (fun value value' same => ?_) (lenient first) (lenient second)
  refine others.map fun values values' sameOthers => ?_
  rw [List.map_cons, List.map_cons, same, sameOthers]

end Loose

end SoftRules.Grammar
