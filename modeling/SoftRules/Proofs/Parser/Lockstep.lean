import SoftRules.Proofs.Parser.Acceptance

/-!
Two parsers in step.

Parsers are in step at two cursors if they both accept, both reject or both abort there. What they
accept looks the same, and what they leave is related like the texts they started from. Each
combinator keeps its parts in step, so that nothing has to be known about the texts themselves
except how they begin.
-/

set_option autoImplicit false

namespace SoftRules

/-- Outcomes of the same kind. Accepted values look the same, and the texts that are left stand
beside each other. -/
inductive Outcome.InStep {α γ : Type} (view : α → γ) (Beside : List Char → List Char → Prop) :
    Outcome α → Outcome α → Prop
  | accept {value other : α} {next last : Cursor} (same : view value = view other)
      (beside : Beside next.rest last.rest) :
      InStep view Beside (.accept value next) (.accept other last)
  | reject {error other : ParseError} : InStep view Beside (.reject error) (.reject other)
  | abort {error other : ParseError} : InStep view Beside (.abort error) (.abort other)

namespace Parser

variable {α β γ δ : Type} {view : α → γ} {look : β → δ} {Beside : List Char → List Char → Prop}

/-- The parsers are in step at the two cursors. -/
def InStep (view : α → γ) (Beside : List Char → List Char → Prop) (first second : Parser α)
    (left right : Cursor) : Prop :=
  (first.read left).InStep view Beside (second.read right)

variable {first second : Parser α} {further other : α → Parser β} {left right : Cursor}

theorem inStep_of_reads {rest behind : List Char} {good fine : α → Prop}
    (reads : first.Reads left.rest rest good) (alsoReads : second.Reads right.rest behind fine)
    (same : ∀ value other, good value → fine other → view value = view other)
    (beside : Beside rest behind) : InStep view Beside first second left right := by
  obtain ⟨value, stop, accepted, isGood⟩ := reads left.offset
  obtain ⟨other, last, alsoAccepted, isFine⟩ := alsoReads right.offset
  unfold InStep
  rw [accepted, alsoAccepted]
  exact .accept (same value other isGood isFine) beside

theorem inStep_of_rejects (rejects : first.Rejects left.rest)
    (alsoRejects : second.Rejects right.rest) : InStep view Beside first second left right := by
  obtain ⟨error, rejected⟩ := rejects left.offset
  obtain ⟨other, alsoRejected⟩ := alsoRejects right.offset
  unfold InStep
  rw [rejected, alsoRejected]
  exact .reject

theorem InStep.imp (inStep : InStep view Beside first second left right)
    {Behind : List Char → List Char → Prop}
    (implies : ∀ text text', Beside text text' → Behind text text') :
    InStep view Behind first second left right := by
  unfold InStep at inStep ⊢
  generalize first.read left = outcome at inStep ⊢
  generalize second.read right = outcome' at inStep ⊢
  cases inStep with
  | accept same beside => exact .accept same (implies _ _ beside)
  | reject => exact .reject
  | abort => exact .abort

theorem InStep.pure {value other : α} (same : view value = view other)
    (beside : Beside left.rest right.rest) :
    InStep view Beside (Pure.pure value) (Pure.pure other) left right :=
  .accept same beside

/-- Two sequences are related if failures of one kind are, and the second parts where the first
parts have left the cursors. -/
theorem InStep.bind_related (relates : Outcome β → Outcome β → Prop)
    (inStep : InStep view Beside first second left right)
    (rejects : ∀ error error', relates (.reject error) (.reject error'))
    (aborts : ∀ error error', relates (.abort error) (.abort error'))
    (behind : ∀ value value' next last, view value = view value' → Beside next.rest last.rest →
      relates ((further value).read next) ((other value').read last)) :
    relates ((first >>= further).read left) ((second >>= other).read right) := by
  unfold InStep at inStep
  rw [read_bind, read_bind]
  generalize first.read left = outcome at inStep ⊢
  generalize second.read right = outcome' at inStep ⊢
  cases inStep with
  | accept same beside => exact behind _ _ _ _ same beside
  | reject => exact rejects _ _
  | abort => exact aborts _ _

theorem InStep.bind {Behind : List Char → List Char → Prop}
    (inStep : InStep view Beside first second left right)
    (behind : ∀ value value' next last, view value = view value' → Beside next.rest last.rest →
      InStep look Behind (further value) (other value') next last) :
    InStep look Behind (first >>= further) (second >>= other) left right :=
  inStep.bind_related (Outcome.InStep look Behind) (fun _ _ => .reject) (fun _ _ => .abort) behind

theorem InStep.recover {recovery recovery' : ParseError → Parser α}
    (inStep : InStep view Beside first second left right)
    (recovers : ∀ error error', InStep view Beside (recovery error) (recovery' error') left right) :
    InStep view Beside (Parser.recover first recovery) (Parser.recover second recovery')
      left right := by
  unfold InStep at inStep ⊢
  simp only [Parser.recover]
  generalize first.read left = outcome at inStep ⊢
  generalize second.read right = outcome' at inStep ⊢
  cases inStep with
  | accept same beside => exact .accept same beside
  | reject => exact recovers _ _
  | abort => exact .abort

theorem InStep.explain (cause : ParseError.Cause)
    (inStep : InStep view Beside first second left right) :
    InStep view Beside (Parser.explain cause first) (Parser.explain cause second) left right := by
  unfold InStep at inStep ⊢
  simp only [Parser.explain]
  generalize first.read left = outcome at inStep ⊢
  generalize second.read right = outcome' at inStep ⊢
  cases inStep with
  | accept same beside => exact .accept same beside
  | reject => exact .reject
  | abort => exact .abort

theorem read_optional_of_accept {cursor next : Cursor} {value : α}
    (accepted : first.read cursor = .accept value next) :
    (Parser.optional first).read cursor = .accept (some value) next := by
  simp only [Parser.optional, Parser.recover, read_bind, accepted, read_pure]

theorem read_optional_of_reject {cursor : Cursor} {error : ParseError}
    (rejected : first.read cursor = .reject error) :
    (Parser.optional first).read cursor = .accept none cursor := by
  simp only [Parser.optional, Parser.recover, read_bind, rejected, read_pure]

theorem read_optional_of_abort {cursor : Cursor} {error : ParseError}
    (aborted : first.read cursor = .abort error) :
    (Parser.optional first).read cursor = .abort error := by
  simp only [Parser.optional, Parser.recover, read_bind, aborted]

theorem InStep.optional (inStep : InStep view Beside first second left right)
    (beside : Beside left.rest right.rest) :
    InStep (Option.map view) Beside (Parser.optional first) (Parser.optional second) left right :=
  .recover (.bind inStep fun _ _ _ _ same behind => .pure (congrArg some same) behind)
    fun _ _ => .pure rfl beside

/-- Parsers are in step wherever the texts stand beside each other. -/
def Parallel (view : α → γ) (Beside : List Char → List Char → Prop) (first second : Parser α) :
    Prop :=
  ∀ left right, Beside left.rest right.rest → InStep view Beside first second left right

theorem Parallel.pure {value other : α} (same : view value = view other) :
    Parallel view Beside (Pure.pure value) (Pure.pure other) :=
  fun _ _ beside => .pure same beside

theorem parallel_offset : Parallel (fun _ => ()) Beside offset offset :=
  fun _ _ beside => .accept rfl beside

theorem parallel_fail (cause : ParseError.Cause) :
    Parallel view Beside (fail cause) (fail cause) :=
  fun _ _ _ => .reject

theorem Parallel.bind (parallel : Parallel view Beside first second)
    (behind : ∀ value value', view value = view value' →
      Parallel look Beside (further value) (other value')) :
    Parallel look Beside (first >>= further) (second >>= other) :=
  fun left right beside => .bind (parallel left right beside)
    fun value value' next last same nextBeside => behind value value' same next last nextBeside

theorem Parallel.explain (cause : ParseError.Cause)
    (parallel : Parallel view Beside first second) :
    Parallel view Beside (Parser.explain cause first) (Parser.explain cause second) :=
  fun left right beside => .explain cause (parallel left right beside)

theorem Parallel.expecting (expectation : Expectation)
    (parallel : Parallel view Beside first second) :
    Parallel view Beside (Parser.expecting expectation first)
      (Parser.expecting expectation second) :=
  parallel.explain _

theorem InStep.commit (inStep : InStep view Beside first second left right) :
    InStep view Beside (Parser.commit first) (Parser.commit second) left right :=
  inStep.recover fun _ _ => .abort

theorem Parallel.optional (parallel : Parallel view Beside first second) :
    Parallel (Option.map view) Beside (Parser.optional first) (Parser.optional second) :=
  fun left right beside => .optional (parallel left right beside) beside

/-- A parser that is in step with itself wherever the text stands reads it at every place. -/
theorem Parallel.reads {parser : Parser α} (parallel : Parallel view Eq parser parser)
    {cursor next : Cursor} {value : α} (accepted : parser.read cursor = .accept value next) :
    parser.Reads cursor.rest next.rest fun found => view found = view value := by
  intro offset
  have inStep := parallel cursor ⟨offset, cursor.rest⟩ rfl
  unfold InStep at inStep
  rw [accepted] at inStep
  generalize parser.read ⟨offset, cursor.rest⟩ = outcome at inStep
  cases inStep with
  | @accept _ found _ last same beside => exact ⟨found, last.offset, by rw [beside], same.symm⟩

theorem view_getD {found found' : Option α} (same : found.map view = found'.map view)
    (default : α) : view (found.getD default) = view (found'.getD default) := by
  rw [← Option.getD_map view, same, Option.getD_map view]

/-- Alternatives are in step if they are so one by one. -/
theorem InStep.firstOf {firsts seconds : List (Parser α)}
    (inStep : List.Forall₂ (fun first second => InStep view Beside first second left right)
      firsts seconds) :
    InStep view Beside (Parser.firstOf firsts) (Parser.firstOf seconds) left right := by
  unfold Parser.firstOf
  change InStep view Beside (firstOf.go left.offset _ firsts) (firstOf.go right.offset _ seconds)
    left right
  generalize (⟨⟨.mismatch .alternatives, left.offset⟩, []⟩ : ParseError) = error
  generalize (⟨⟨.mismatch .alternatives, right.offset⟩, []⟩ : ParseError) = error'
  induction inStep generalizing error error' with
  | nil => exact .reject
  | cons first _ inductionHypothesis =>
      exact .recover first fun _ _ => inductionHypothesis _ _

theorem parallel_firstOf {firsts seconds : List (Parser α)}
    (parallel : List.Forall₂ (Parallel view Beside) firsts seconds) :
    Parallel view Beside (firstOf firsts) (firstOf seconds) :=
  fun left right beside => .firstOf (parallel.imp fun _ _ each => each left right beside)

theorem InStep.located [Located α]
    (keeps : ∀ origin value, view (Located.relocate origin value) = view value)
    (inStep : InStep view Beside first second left right) :
    InStep view Beside (Parser.located first) (Parser.located second) left right := by
  unfold InStep at inStep ⊢
  simp only [Parser.located, read_bind, Parser.offset]
  generalize first.read left = outcome at inStep ⊢
  generalize second.read right = outcome' at inStep ⊢
  cases inStep with
  | accept same beside => exact .accept (by rw [keeps, keeps, same]) beside
  | reject => exact .reject
  | abort => exact .abort

theorem Parallel.located [Located α]
    (keeps : ∀ origin value, view (Located.relocate origin value) = view value)
    (parallel : Parallel view Beside first second) :
    Parallel view Beside (Parser.located first) (Parser.located second) :=
  fun left right beside => .located keeps (parallel left right beside)

theorem Parallel.refuse (parallel : Parallel view Beside first second) :
    Parallel id Beside (Parser.refuse first) (Parser.refuse second) := by
  intro left right beside
  have inStep := parallel left right beside
  unfold InStep at inStep ⊢
  simp only [Parser.refuse]
  generalize first.read left = outcome at inStep ⊢
  generalize second.read right = outcome' at inStep ⊢
  cases inStep with
  | accept _ _ => exact .reject
  | reject => exact .accept rfl beside
  | abort => exact .abort

theorem Parallel.convert {conversion : α → Except ParseError.Cause β}
    (parallel : Parallel id Beside first second) :
    Parallel id Beside (Parser.convert first conversion) (Parser.convert second conversion) := by
  refine .bind parallel_offset fun _ _ _ => .bind parallel fun value value' same => ?_
  cases (same : value = value')
  cases conversion value with
  | ok result => exact .pure rfl
  | error cause => exact fun _ _ _ => .reject

/-- Texts beside each other have the same characters in front of texts beside each other. -/
def KeepsText (Beside : List Char → List Char → Prop) : Prop :=
  ∀ text text' rest rest', Beside (text ++ rest) (text' ++ rest') → Beside rest rest' →
    text = text'

theorem keepsText_eq : KeepsText Eq := by
  rintro text text' rest _ same rfl
  exact List.append_cancel_right same

theorem read_consumed {parser : Parser α} {cursor next : Cursor} {value : α} {text : List Char}
    (accepted : parser.read cursor = .accept value next) (isText : cursor.rest = text ++ next.rest) :
    (consumed parser).read cursor = .accept text next := by
  obtain ⟨count, rfl⟩ := le_of_read accepted
  have sameText : text ++ cursor.rest.drop count =
      cursor.rest.take count ++ cursor.rest.drop count := by
    rw [List.take_append_drop]
    exact isText.symm
  have isTaken := List.append_cancel_right sameText
  have isSplit := Source.split_byteLength (cursor.rest.take count) (cursor.rest.drop count)
  rw [List.take_append_drop] at isSplit
  simp only [consumed, read_bind, offset, rest, accepted, read_pure, Cursor.advance,
    Nat.add_sub_cancel_left, isSplit, isTaken]

/-- An acceptance reads a text of its own. -/
theorem text_of_read {parser : Parser α} {cursor next : Cursor} {value : α}
    (accepted : parser.read cursor = .accept value next) :
    ∃ text, cursor.rest = text ++ next.rest :=
  Cursor.text_of_le (le_of_read accepted)

theorem InStep.consumed (keepsText : KeepsText Beside) (beside : Beside left.rest right.rest)
    (inStep : InStep view Beside first second left right) :
    InStep id Beside (Parser.consumed first) (Parser.consumed second) left right := by
  unfold InStep at inStep ⊢
  generalize read : first.read left = outcome at inStep
  generalize read' : second.read right = outcome' at inStep
  cases inStep with
  | accept _ nextBeside =>
      obtain ⟨text, isText⟩ := text_of_read read
      obtain ⟨text', isText'⟩ := text_of_read read'
      rw [read_consumed read isText, read_consumed read' isText']
      rw [isText, isText'] at beside
      exact .accept (keepsText _ _ _ _ beside nextBeside) nextBeside
  | reject =>
      simp only [Parser.consumed, read_bind, Parser.offset, Parser.rest, read, read']
      exact .reject
  | abort =>
      simp only [Parser.consumed, read_bind, Parser.offset, Parser.rest, read, read']
      exact .abort

theorem Parallel.consumed (keepsText : KeepsText Beside)
    (parallel : Parallel view Beside first second) :
    Parallel id Beside (Parser.consumed first) (Parser.consumed second) :=
  fun left right beside => .consumed keepsText beside (parallel left right beside)

section Characters

/-- Texts beside each other start alike, and behind a character of the class they still stand
beside each other. -/
def Unrolls (Beside : List Char → List Char → Prop) (accepts : Char → Bool) : Prop :=
  ∀ text text', Beside text text' → (text = [] ∧ text' = []) ∨
    ∃ character others others', text = character :: others ∧ text' = character :: others' ∧
      (accepts character = true → Beside others others')

theorem unrolls_eq (accepts : Char → Bool) : Unrolls Eq accepts := by
  rintro text _ rfl
  cases text with
  | nil => exact .inl ⟨rfl, rfl⟩
  | cons character others => exact .inr ⟨character, others, others, rfl, rfl, fun _ => rfl⟩

variable {accepts : Char → Bool} (unrolls : Unrolls Beside accepts)

include unrolls

theorem parallel_satisfy (kind : Mismatch) :
    Parallel id Beside (satisfy accepts kind) (satisfy accepts kind) := by
  rintro ⟨start, text⟩ ⟨start', text'⟩ (beside : Beside text text')
  obtain ⟨rfl, rfl⟩ | ⟨character, others, others', rfl, rfl, behind⟩ := unrolls _ _ beside
  · exact inStep_of_rejects (rejects_satisfy _ (by simp)) (rejects_satisfy _ (by simp))
  · cases accepted : accepts character with
    | true =>
        exact inStep_of_reads (.satisfy kind accepted) (.satisfy kind accepted)
          (fun _ _ same same' => same.trans same'.symm) (behind accepted)
    | false =>
        exact inStep_of_rejects (rejects_satisfy _ (by simp [accepted]))
          (rejects_satisfy _ (by simp [accepted]))

/-- The longest runs of the class are the same. -/
theorem Unrolls.takeWhile {text text' : List Char} (beside : Beside text text') :
    text.takeWhile accepts = text'.takeWhile accepts ∧
      Beside (text.dropWhile accepts) (text'.dropWhile accepts) := by
  induction text generalizing text' with
  | nil =>
      obtain ⟨-, rfl⟩ | ⟨_, _, _, isText, _⟩ := unrolls _ _ beside
      · exact ⟨rfl, beside⟩
      · cases isText
  | cons first others inductionHypothesis =>
      obtain ⟨isEmpty, -⟩ | ⟨_, _, others', isText, rfl, behind⟩ := unrolls _ _ beside
      · cases isEmpty
      · cases isText
        cases accepted : accepts first with
        | true =>
            have run := inductionHypothesis (behind accepted)
            simp [accepted, run.1, run.2]
        | false => simpa [accepted] using beside

omit unrolls in
theorem reads_takeWhile (accepts : Char → Bool) (text : List Char) :
    (takeWhile accepts).Reads text (text.dropWhile accepts) (· = text.takeWhile accepts) := by
  have reads := @Reads.takeWhile accepts (text.dropWhile accepts) (text.takeWhile accepts)
    (List.all_eq_true.mp List.all_takeWhile) head_dropWhile
  rwa [List.takeWhile_append_dropWhile] at reads

theorem parallel_takeWhile :
    Parallel id Beside (Parser.takeWhile accepts) (Parser.takeWhile accepts) := by
  intro left right beside
  have run := unrolls.takeWhile beside
  refine inStep_of_reads (reads_takeWhile accepts _) (reads_takeWhile accepts _) ?_ run.2
  rintro _ _ rfl rfl
  exact run.1

theorem parallel_takeWhile1 (kind : Mismatch) :
    Parallel id Beside (takeWhile1 accepts kind) (takeWhile1 accepts kind) := by
  refine .bind (parallel_satisfy unrolls kind) fun first first' same => ?_
  refine .bind (parallel_takeWhile unrolls) fun others others' sameOthers => .pure ?_
  cases (same : first = first')
  cases (sameOthers : others = others')
  rfl

omit unrolls in
theorem parallel_char {character : Char} (unrolls : Unrolls Beside (· == character)) :
    Parallel id Beside (char character) (char character) :=
  .bind (parallel_satisfy unrolls _) fun _ _ _ => .pure rfl

omit unrolls in
theorem Unrolls.word {expected : List Char} (unrolls : Unrolls Beside expected.contains)
    {text text' : List Char} (beside : Beside text text') :
    (∃ rest rest', text = expected ++ rest ∧ text' = expected ++ rest' ∧ Beside rest rest') ∨
      ¬ expected <+: text ∧ ¬ expected <+: text' := by
  induction expected generalizing text text' with
  | nil => exact .inl ⟨text, text', rfl, rfl, beside⟩
  | cons first expected inductionHypothesis =>
      obtain ⟨rfl, rfl⟩ | ⟨character, others, others', rfl, rfl, behind⟩ := unrolls _ _ beside
      · exact .inr ⟨by simp, by simp⟩
      · by_cases same : first = character
        · subst same
          have fewer : Unrolls Beside expected.contains := by
            intro text text' beside
            obtain empty | ⟨next, rest, rest', isText, alsoText, behind⟩ := unrolls _ _ beside
            · exact .inl empty
            · refine .inr ⟨next, rest, rest', isText, alsoText, fun member => behind ?_⟩
              simp only [List.contains_eq_mem, decide_eq_true_eq] at member ⊢
              exact List.mem_cons_of_mem _ member
          obtain ⟨rest, rest', rfl, rfl, restBeside⟩ | ⟨refused, alsoRefused⟩ :=
            inductionHypothesis fewer (behind (by simp))
          · exact .inl ⟨rest, rest', rfl, rfl, restBeside⟩
          · simp only [List.cons_prefix_cons, true_and]
            exact .inr ⟨refused, alsoRefused⟩
        · simp only [List.cons_prefix_cons, same, false_and]
          exact .inr ⟨not_false, not_false⟩

omit unrolls in
theorem parallel_word {expected : List Char} (unrolls : Unrolls Beside expected.contains) :
    Parallel id Beside (word expected) (word expected) := by
  rintro ⟨start, text⟩ ⟨start', text'⟩ (beside : Beside text text')
  obtain ⟨rest, rest', rfl, rfl, restBeside⟩ | ⟨refused, alsoRefused⟩ := unrolls.word beside
  · exact inStep_of_reads (.word expected rest) (.word expected rest') (fun _ _ _ _ => rfl)
      restBeside
  · exact inStep_of_rejects (rejects_word refused) (rejects_word alsoRefused)

end Characters

/-- Where both texts are the same, it only matters where they stand. -/
theorem parallel_takeUntil (stop : List Char → Bool) (cause : ParseError.Cause) :
    Parallel id Eq (takeUntil stop cause) (takeUntil stop cause) := by
  intro left right same
  unfold InStep
  simp only [takeUntil, read_bind, rest, ← same]
  split
  · exact .accept rfl (by simp [Cursor.advance, same])
  · exact .reject

section Repetition

/-- What two rounds do in step. Where both end the repetition, it does not matter where they
stopped. -/
inductive RoundInStep (view : α → γ) (Beside : List Char → List Char → Prop) :
    Outcome (Option α) → Outcome (Option α) → Prop
  | none {next last : Cursor} : RoundInStep view Beside (.accept none next) (.accept none last)
  | some {value other : α} {next last : Cursor} (same : view value = view other)
      (beside : Beside next.rest last.rest) :
      RoundInStep view Beside (.accept (some value) next) (.accept (some other) last)
  | reject {error other : ParseError} : RoundInStep view Beside (.reject error) (.reject other)
  | abort {error other : ParseError} : RoundInStep view Beside (.abort error) (.abort other)

theorem RoundInStep.of_inStep {outcome outcome' : Outcome (Option α)}
    (inStep : outcome.InStep (Option.map view) Beside outcome') :
    RoundInStep view Beside outcome outcome' := by
  cases inStep with
  | @accept value other _ _ same beside =>
      cases value with
      | none =>
          cases other with
          | none => exact .none
          | some _ => cases same
      | some value =>
          cases other with
          | none => cases same
          | some other => exact .some (Option.some.inj same) beside
  | reject => exact .reject
  | abort => exact .abort

/-- Texts beside each other differ in length by the same number everywhere. -/
def KeepsLag (Beside : List Char → List Char → Prop) : Prop :=
  ∀ text text' rest rest', Beside text text' → Beside rest rest' →
    text.length + rest'.length = text'.length + rest.length

theorem keepsLag_eq : KeepsLag Eq := by
  rintro text _ rest _ rfl rfl
  rfl

/-- Where one side advances, the other one does. -/
theorem KeepsLag.offset_lt_iff (keepsLag : KeepsLag Beside) {next last : Cursor}
    (beside : Beside left.rest right.rest) (behind : Beside next.rest last.rest)
    (forward : left ≤ next) (alsoForward : right ≤ last) :
    left.offset < next.offset ↔ right.offset < last.offset := by
  have lag := keepsLag _ _ _ _ beside behind
  constructor
  · intro further
    have shorter := Cursor.length_lt_of_offset_lt forward further
    exact Cursor.offset_lt_of_length_lt alsoForward (by omega)
  · intro further
    have shorter := Cursor.length_lt_of_offset_lt alsoForward further
    exact Cursor.offset_lt_of_length_lt forward (by omega)

/-- One round that reads something, and the others behind it. -/
theorem read_rounds_of_some {round : Parser (Option α)} {cursor next : Cursor} {value : α}
    (accepted : round.read cursor = .accept (some value) next)
    (further : cursor.offset < next.offset) :
    (Parser.rounds round).read cursor =
      (Parser.rounds round >>= fun values => Pure.pure (value :: values)).read next := by
  rw [read_rounds, accepted, read_bind]
  simp only [further, if_true]
  cases (Parser.rounds round).read next <;> rfl

/-- What holds of two repetitions at the ends of their rounds, and what each round passes on, holds
of them everywhere. A round may also settle the repetitions at once. -/
theorem rounds_related {round round' : Parser (Option α)}
    (Related : Outcome (List α) → Outcome (List α) → Prop) (keepsLag : KeepsLag Beside)
    (ends : ∀ left right : Cursor, Beside left.rest right.rest →
      Related (.accept [] left) (.accept [] right))
    (rejects : ∀ error error', Related (.reject error) (.reject error'))
    (aborts : ∀ error error', Related (.abort error) (.abort error'))
    (passes : ∀ (others others' : Parser (List α)) value value' (next last : Cursor),
      view value = view value' → Related (others.read next) (others'.read last) →
        Related ((others >>= fun values => Pure.pure (value :: values)).read next)
          ((others' >>= fun values => Pure.pure (value' :: values)).read last))
    (inStep : ∀ left right, Beside left.rest right.rest →
      RoundInStep view Beside (round.read left) (round'.read right) ∨
        Related ((Parser.rounds round).read left) ((Parser.rounds round').read right))
    (left right : Cursor) (beside : Beside left.rest right.rest) :
    Related ((Parser.rounds round).read left) ((Parser.rounds round').read right) := by
  -- Both sides lag by the same amount, so that a round goes on here exactly if it does there.
  induction size : left.rest.length using Nat.strongRecOn generalizing left right with
  | ind size inductionHypothesis =>
      subst size
      obtain rounds | settled := inStep left right beside
      · generalize read : round.read left = outcome at rounds
        generalize read' : round'.read right = outcome' at rounds
        cases rounds with
        | none =>
            rw [read_rounds, read_rounds, read, read']
            exact ends left right beside
        | reject =>
            rw [read_rounds, read_rounds, read, read']
            exact rejects _ _
        | abort =>
            rw [read_rounds, read_rounds, read, read']
            exact aborts _ _
        | @some value value' next last same nextBeside =>
            have advances := keepsLag.offset_lt_iff beside nextBeside (le_of_read read)
              (le_of_read read')
            by_cases further : left.offset < next.offset
            · have shorter := Cursor.length_lt_of_offset_lt (le_of_read read) further
              rw [read_rounds_of_some read further, read_rounds_of_some read' (advances.mp further)]
              exact passes _ _ _ _ _ _ same
                (inductionHypothesis _ shorter next last nextBeside rfl)
            · have stays := fun alsoFurther => further (advances.mpr alsoFurther)
              rw [read_rounds, read_rounds, read, read']
              simp only [if_neg further, if_neg stays]
              exact rejects _ _
      · exact settled

theorem parallel_rounds {round round' : Parser (Option α)} (keepsLag : KeepsLag Beside)
    (inStep : ∀ left right, Beside left.rest right.rest →
      RoundInStep view Beside (round.read left) (round'.read right)) :
    Parallel (List.map view) Beside (Parser.rounds round) (Parser.rounds round') := by
  intro left right beside
  refine rounds_related (Outcome.InStep (List.map view) Beside) keepsLag
    (fun _ _ beside => .accept rfl beside) (fun _ _ => .reject) (fun _ _ => .abort) ?_
    (fun left right beside => .inl (inStep left right beside)) left right beside
  intro others others' value value' next last same inStep
  refine InStep.bind inStep fun values values' _ _ sameOthers beside => .pure ?_ beside
  rw [List.map_cons, List.map_cons, same, sameOthers]

theorem Parallel.many (parallel : Parallel view Beside first second)
    (keepsLag : KeepsLag Beside) :
    Parallel (List.map view) Beside (Parser.many first) (Parser.many second) :=
  parallel_rounds keepsLag fun left right beside =>
    .of_inStep (parallel.optional left right beside)

theorem Parallel.separated1 {separator : Parser Unit} (keepsLag : KeepsLag Beside)
    (between : Parallel id Beside separator separator)
    (parallel : Parallel view Beside first second) :
    Parallel (List.map view) Beside (Parser.separated1 separator first)
      (Parser.separated1 separator second) := by
  refine .bind parallel fun value value' same => ?_
  have others := Parallel.many (.bind between fun _ _ _ => parallel) keepsLag
  refine .bind others fun values values' sameOthers => .pure ?_
  rw [List.map_cons, List.map_cons, same, sameOthers]

theorem Parallel.separated {separator : Parser Unit} (keepsLag : KeepsLag Beside)
    (between : Parallel id Beside separator separator)
    (parallel : Parallel view Beside first second) :
    Parallel (List.map view) Beside (Parser.separated separator first)
      (Parser.separated separator second) := by
  refine .bind (Parallel.optional (.separated1 keepsLag between parallel)) ?_
  intro values values' same
  exact .pure (view_getD same [])

end Repetition

end Parser

end SoftRules
