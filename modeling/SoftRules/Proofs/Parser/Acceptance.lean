import SoftRules.Proofs.Parser.Unfolding

/-!
What follows from an acceptance.

`Answers` is the partial counterpart of `Reads`: nothing is said about a parser that does not
accept, so that the text need not be known. Alternatives and options are described in their order,
and a later one may use that the earlier ones have rejected the text at the same cursor.

`Requires` turns this around. The text is known, and so is the value that it was made of; a
condition on that value follows if the parser gets it back.
-/

set_option autoImplicit false

namespace SoftRules.Parser

variable {α β : Type}

/-- If the parser accepts at the cursor, then a good value, and it stops at a good place. -/
def Answers (parser : Parser α) (cursor : Cursor) (good : α → Cursor → Prop) : Prop :=
  ∀ value next, parser.read cursor = .accept value next → good value next

def RejectsAt (parser : Parser α) (cursor : Cursor) : Prop :=
  ∃ error, parser.read cursor = .reject error

section Outcomes

variable {parser : Parser α} {further : α → Parser β} {cursor : Cursor} {good : α → Cursor → Prop}
  {fine : β → Cursor → Prop}

theorem Answers.imp (answers : parser.Answers cursor good) {better : α → Cursor → Prop}
    (implies : ∀ value next, good value next → better value next) :
    parser.Answers cursor better :=
  fun value next accepted => implies value next (answers value next accepted)

theorem Answers.and (answers : parser.Answers cursor good) {other : α → Cursor → Prop}
    (also : parser.Answers cursor other) :
    parser.Answers cursor fun value next => good value next ∧ other value next :=
  fun value next accepted => ⟨answers value next accepted, also value next accepted⟩

theorem answers_trivially (parser : Parser α) (cursor : Cursor) :
    parser.Answers cursor fun _ _ => True :=
  fun _ _ _ => trivial

/-- What is known about a text is known about every acceptance of it. -/
theorem Reads.answers {input left : List Char} {isGood : α → Prop}
    (reads : parser.Reads input left isGood) (offset : Nat) :
    parser.Answers ⟨offset, input⟩ fun value next => isGood value ∧ next.rest = left := by
  intro value next accepted
  obtain ⟨found, stop, read, foundGood⟩ := reads offset
  rw [read] at accepted
  cases accepted
  exact ⟨foundGood, rfl⟩

theorem Reads.left_unique {input left other : List Char} {isGood isFine : α → Prop}
    (reads : parser.Reads input left isGood) (alsoReads : parser.Reads input other isFine) :
    left = other := by
  obtain ⟨_, _, accepted, -⟩ := reads 0
  exact (alsoReads.answers 0 _ _ accepted).2

theorem Rejects.answers {input : List Char} (rejects : parser.Rejects input) (offset : Nat) :
    parser.Answers ⟨offset, input⟩ good := by
  intro value next accepted
  obtain ⟨error, rejected⟩ := rejects offset
  rw [rejected] at accepted
  cases accepted

theorem Reads.not_rejectsAt {input left : List Char} {isGood : α → Prop}
    (reads : parser.Reads input left isGood) {offset : Nat} :
    ¬ parser.RejectsAt ⟨offset, input⟩ := by
  rintro ⟨error, rejected⟩
  obtain ⟨found, stop, read, -⟩ := reads offset
  rw [read] at rejected
  cases rejected

theorem RejectsAt.of_bind (rejects : (parser >>= further).RejectsAt cursor) :
    parser.RejectsAt cursor ∨
      ∃ value next, parser.read cursor = .accept value next ∧ (further value).RejectsAt next := by
  obtain ⟨error, rejected⟩ := rejects
  rw [read_bind] at rejected
  cases read : parser.read cursor with
  | accept value next =>
      rw [read] at rejected
      exact .inr ⟨value, next, rfl, error, rejected⟩
  | reject error => exact .inl ⟨error, read⟩
  | abort error =>
      rw [read] at rejected
      cases rejected

theorem RejectsAt.of_map {result : α → β}
    (rejects : (parser >>= fun value => Pure.pure (result value)).RejectsAt cursor) :
    parser.RejectsAt cursor := by
  rcases rejects.of_bind with rejected | ⟨value, next, -, error, rejected⟩
  · exact rejected
  · cases rejected

theorem Answers.pure {value : α} (isGood : good value cursor) :
    (Pure.pure value : Parser α).Answers cursor good := by
  intro found next accepted
  cases accepted
  exact isGood

theorem Answers.bind (first : parser.Answers cursor good)
    (second : ∀ value next, good value next → (further value).Answers next fine) :
    (parser >>= further).Answers cursor fine := by
  intro value last accepted
  rw [read_bind] at accepted
  cases read : parser.read cursor with
  | accept found next =>
      rw [read] at accepted
      exact second found next (first found next read) value last accepted
  | reject error =>
      rw [read] at accepted
      cases accepted
  | abort error =>
      rw [read] at accepted
      cases accepted

theorem Answers.after (second : ∀ value next, (further value).Answers next fine) :
    (parser >>= further).Answers cursor fine :=
  .bind (answers_trivially parser cursor) fun value next _ => second value next

theorem Answers.offset {further : Nat → Parser β}
    (answers : (further cursor.offset).Answers cursor fine) :
    (Parser.offset >>= further).Answers cursor fine :=
  answers

theorem Answers.rest {further : List Char → Parser β}
    (answers : (further cursor.rest).Answers cursor fine) :
    (Parser.rest >>= further).Answers cursor fine :=
  answers

theorem answers_read (parser : Parser α) (cursor : Cursor) :
    parser.Answers cursor fun value next => parser.read cursor = .accept value next :=
  fun _ _ accepted => accepted

theorem answers_fail (cause : ParseError.Cause) (cursor : Cursor) :
    (fail cause : Parser α).Answers cursor good := by
  intro value next accepted
  cases accepted

end Outcomes

section Characters

variable (accepts : Char → Bool) (kind : Mismatch) (cursor : Cursor)

theorem answers_satisfy :
    (satisfy accepts kind).Answers cursor fun value next =>
      accepts value = true ∧ cursor.rest = value :: next.rest := by
  refine .rest ?_
  cases text : cursor.rest with
  | nil => exact answers_fail _ _
  | cons character others =>
      simp only
      split
      · next accepted =>
          intro value next read
          cases read
          exact ⟨accepted, by simp [Cursor.advance, text]⟩
      · exact answers_fail _ _

theorem answers_char (expected : Char) :
    (char expected).Answers cursor fun _ next => cursor.rest = expected :: next.rest := by
  refine .bind (answers_satisfy _ _ cursor) ?_
  intro value next found
  obtain ⟨isExpected, reads⟩ := found
  rw [beq_iff_eq.mp isExpected] at reads
  exact .pure reads

theorem answers_takeWhile :
    (takeWhile accepts).Answers cursor fun value next =>
      value = cursor.rest.takeWhile accepts ∧ next.rest = cursor.rest.dropWhile accepts := by
  refine .rest ?_
  intro value next read
  cases read
  refine ⟨rfl, ?_⟩
  have dropped : (cursor.rest.takeWhile accepts ++ cursor.rest.dropWhile accepts).drop
      (cursor.rest.takeWhile accepts).length = cursor.rest.dropWhile accepts :=
    List.drop_left
  rwa [List.takeWhile_append_dropWhile] at dropped

theorem answers_takeWhile1 :
    (takeWhile1 accepts kind).Answers cursor fun value next =>
      value ≠ [] ∧ value = cursor.rest.takeWhile accepts ∧
        next.rest = cursor.rest.dropWhile accepts := by
  refine .bind (answers_satisfy accepts kind cursor) ?_
  intro first middle foundFirst
  obtain ⟨accepted, reads⟩ := foundFirst
  refine .bind (answers_takeWhile accepts middle) ?_
  intro others next foundOthers
  obtain ⟨rfl, left⟩ := foundOthers
  refine .pure ⟨List.cons_ne_nil _ _, ?_, ?_⟩
  · simp [reads, accepted]
  · simp [reads, accepted, left]

theorem answers_word (expected : List Char) :
    (word expected).Answers cursor fun _ next => cursor.rest = expected ++ next.rest := by
  refine .rest ?_
  split
  · next starts =>
      obtain ⟨rest, isRest⟩ := List.isPrefixOf_iff_prefix.mp starts
      intro value next accepted
      cases accepted
      simp [Cursor.advance, ← isRest]
  · exact answers_fail _ _

theorem answers_takeUntil (stop : List Char → Bool) (cause : ParseError.Cause) :
    (takeUntil stop cause).Answers cursor fun value next =>
      partBefore? stop cursor.rest = some value ∧ cursor.rest = value ++ next.rest := by
  refine .rest ?_
  split
  · next part found =>
      obtain ⟨left, text, -⟩ := partBefore?_eq_some found
      intro value next read
      cases read
      exact ⟨found, by simp [Cursor.advance, text]⟩
  · exact answers_fail _ _

end Characters

section Alternatives

variable {parser : Parser α} {cursor : Cursor} {good : α → Cursor → Prop}

theorem Answers.recover {recovery : ParseError → Parser α} (answers : parser.Answers cursor good)
    (recovers : ∀ error, parser.RejectsAt cursor → (recovery error).Answers cursor good) :
    (Parser.recover parser recovery).Answers cursor good := by
  intro value next accepted
  simp only [Parser.recover] at accepted
  split at accepted
  · next read =>
      cases accepted
      exact answers _ _ read
  · next error rejected => exact recovers error ⟨error, rejected⟩ _ _ accepted
  · cases accepted

theorem Answers.explain (cause : ParseError.Cause) (answers : parser.Answers cursor good) :
    (Parser.explain cause parser).Answers cursor good := by
  intro value next accepted
  simp only [Parser.explain] at accepted
  split at accepted
  · next read =>
      cases accepted
      exact answers _ _ read
  all_goals cases accepted

theorem Answers.expecting (expectation : Expectation) (answers : parser.Answers cursor good) :
    (Parser.expecting expectation parser).Answers cursor good :=
  answers.explain _

theorem Answers.commit (answers : parser.Answers cursor good) :
    (Parser.commit parser).Answers cursor good := by
  refine .recover answers ?_
  intro error _ value next accepted
  cases accepted

theorem Answers.optional {found : Option α → Cursor → Prop}
    (answers : parser.Answers cursor fun value next => found (some value) next)
    (nothing : parser.RejectsAt cursor → found none cursor) :
    (Parser.optional parser).Answers cursor found := by
  refine .recover (.bind answers fun value next isGood => .pure isGood) ?_
  exact fun error rejected => .pure (nothing rejected.of_map)

/-- Each of several alternatives answers with good values where the ones in front of it reject. -/
def AnswersOne (cursor : Cursor) (good : α → Cursor → Prop) : List (Parser α) → Prop
  | [] => True
  | parser :: parsers =>
      parser.Answers cursor good ∧ (parser.RejectsAt cursor → AnswersOne cursor good parsers)

theorem answersOne_of_forall {parsers : List (Parser α)}
    (answers : ∀ parser ∈ parsers, parser.Answers cursor good) :
    AnswersOne cursor good parsers := by
  induction parsers with
  | nil => trivial
  | cons parser parsers inductionHypothesis =>
      refine ⟨answers parser (List.mem_cons_self ..), fun _ => ?_⟩
      exact inductionHypothesis fun other member => answers other (List.mem_cons_of_mem _ member)

theorem Answers.firstOf {parsers : List (Parser α)} (answers : AnswersOne cursor good parsers) :
    (Parser.firstOf parsers).Answers cursor good := by
  refine .offset ?_
  generalize (⟨⟨.mismatch .alternatives, cursor.offset⟩, []⟩ : ParseError) = error
  induction parsers generalizing error with
  | nil =>
      intro value next accepted
      cases accepted
  | cons parser parsers inductionHypothesis =>
      exact .recover answers.1 fun inner rejected => inductionHypothesis (answers.2 rejected) _

theorem RejectsAt.of_recover {recovery : ParseError → Parser α}
    (rejects : (Parser.recover parser recovery).RejectsAt cursor) :
    parser.RejectsAt cursor ∧ ∃ error, (recovery error).RejectsAt cursor := by
  obtain ⟨error, rejected⟩ := rejects
  simp only [Parser.recover] at rejected
  cases read : parser.read cursor with
  | accept value next =>
      rw [read] at rejected
      cases rejected
  | reject inner =>
      rw [read] at rejected
      exact ⟨⟨inner, read⟩, inner, error, rejected⟩
  | abort error =>
      rw [read] at rejected
      cases rejected

theorem RejectsAt.of_firstOf {parsers : List (Parser α)}
    (rejects : (Parser.firstOf parsers).RejectsAt cursor) :
    ∀ parser ∈ parsers, parser.RejectsAt cursor := by
  change (firstOf.go cursor.offset _ parsers).RejectsAt cursor at rejects
  generalize (⟨⟨.mismatch .alternatives, cursor.offset⟩, []⟩ : ParseError) = error at rejects
  induction parsers generalizing error with
  | nil =>
      intro parser member
      cases member
  | cons parser parsers inductionHypothesis =>
      obtain ⟨rejected, inner, others⟩ := RejectsAt.of_recover rejects
      exact List.forall_mem_cons.mpr ⟨rejected, inductionHypothesis _ others⟩

theorem RejectsAt.of_explain {cause : ParseError.Cause}
    (rejects : (Parser.explain cause parser).RejectsAt cursor) : parser.RejectsAt cursor := by
  obtain ⟨error, rejected⟩ := rejects
  simp only [Parser.explain] at rejected
  split at rejected
  · cases rejected
  · next inner read => exact ⟨inner, read⟩
  · cases rejected

theorem Answers.located [Located α]
    (answers : parser.Answers cursor fun value next =>
      ∀ origin, good (Located.relocate origin value) next) :
    (Parser.located parser).Answers cursor good := by
  refine .offset ?_
  refine .bind answers ?_
  intro value next isGood
  exact .offset (.pure (isGood _))

theorem Answers.convert {conversion : α → Except ParseError.Cause β} {fine : β → Cursor → Prop}
    (answers : parser.Answers cursor fun value next =>
      ∀ result, conversion value = .ok result → fine result next) :
    (Parser.convert parser conversion).Answers cursor fine := by
  refine .offset ?_
  refine .bind answers ?_
  intro value next isGood
  split
  · next result converted => exact .pure (isGood result converted)
  · intro value next accepted
    cases accepted

theorem Answers.consumed {fine : List Char → Cursor → Prop}
    (answers : parser.Answers cursor fun _ next =>
      ∀ text, cursor.rest = text ++ next.rest → fine text next) :
    (Parser.consumed parser).Answers cursor fine := by
  refine .offset ?_
  refine .rest ?_
  have forward : parser.Answers cursor fun _ next => cursor ≤ next :=
    fun _ _ accepted => le_of_read accepted
  refine .bind (answers.and forward) ?_
  rintro _ _ ⟨isFine, count, rfl⟩
  refine .offset (.pure ?_)
  have text := (List.take_append_drop count cursor.rest).symm
  have isSplit := Source.split_byteLength (cursor.rest.take count) (cursor.rest.drop count)
  rw [← text] at isSplit
  simp only [Cursor.advance, Nat.add_sub_cancel_left, isSplit]
  exact isFine _ text

end Alternatives

section Repetition

variable {cursor : Cursor}

/-- The first of several rounds. -/
theorem Answers.rounds {round : Parser (Option α)} {good : List α → Cursor → Prop}
    (nothing : round.Answers cursor fun found _ => found = none → good [] cursor)
    (something : round.Answers cursor fun found next => ∀ value, found = some value →
      next.rest.length < cursor.rest.length →
        (Parser.rounds round).Answers next fun values last => good (value :: values) last) :
    (Parser.rounds round).Answers cursor good := by
  intro values last accepted
  rw [read_rounds] at accepted
  cases read : round.read cursor with
  | accept found next =>
      rw [read] at accepted
      cases found with
      | none =>
          cases accepted
          exact nothing _ _ read rfl
      | some value =>
          simp only at accepted
          split at accepted
          · next further =>
              have shorter := Cursor.length_lt_of_offset_lt (le_of_read read) further
              cases others : (Parser.rounds round).read next with
              | accept values last =>
                  rw [others] at accepted
                  cases accepted
                  exact something _ _ read value rfl shorter _ _ others
              | reject error =>
                  rw [others] at accepted
                  cases accepted
              | abort error =>
                  rw [others] at accepted
                  cases accepted
          · cases accepted
  | reject error =>
      rw [read] at accepted
      cases accepted
  | abort error =>
      rw [read] at accepted
      cases accepted

/-- Values that were read one behind the other, each of them between two places. -/
inductive Chain (good : Cursor → α → Cursor → Prop) : Cursor → List α → Cursor → Prop
  | nil (cursor : Cursor) : Chain good cursor [] cursor
  | cons {cursor next last : Cursor} {value : α} {values : List α} (isGood : good cursor value next)
      (shorter : next.rest.length < cursor.rest.length) (others : Chain good next values last) :
      Chain good cursor (value :: values) last

theorem Chain.forall_mem {good : α → Prop} {last : Cursor} {values : List α}
    (chain : Chain (fun _ value _ => good value) cursor values last) :
    ∀ value ∈ values, good value := by
  induction chain with
  | nil _ => exact List.forall_mem_nil _
  | cons isGood _ _ inductionHypothesis =>
      exact List.forall_mem_cons.mpr ⟨isGood, inductionHypothesis⟩

theorem Chain.length_add_le {good : Cursor → α → Cursor → Prop} {last : Cursor} {values : List α}
    (chain : Chain good cursor values last) :
    values.length + last.rest.length ≤ cursor.rest.length := by
  induction chain with
  | nil _ => simp
  | cons _ shorter _ inductionHypothesis =>
      rw [List.length_cons]
      omega

/-- What holds of each round holds of all of them. -/
theorem answers_rounds_chain {round : Parser (Option α)} {good : Cursor → α → Cursor → Prop}
    (each : ∀ cursor, round.Answers cursor fun found next =>
      ∀ value, found = some value → good cursor value next) (cursor : Cursor) :
    (Parser.rounds round).Answers cursor (Chain good cursor) := by
  induction size : cursor.rest.length using Nat.strongRecOn generalizing cursor with
  | ind size inductionHypothesis =>
      subst size
      refine .rounds (fun _ _ _ _ => .nil cursor) ?_
      refine (each cursor).imp ?_
      rintro found next isGood value rfl shorter
      refine (inductionHypothesis _ shorter next rfl).imp ?_
      intro values last others
      exact .cons (isGood value rfl) shorter others

theorem answers_rounds {round : Parser (Option α)} {good : α → Prop}
    (each : ∀ cursor, round.Answers cursor fun found _ => ∀ value ∈ found, good value)
    (cursor : Cursor) :
    (Parser.rounds round).Answers cursor fun values _ => ∀ value ∈ values, good value :=
  (answers_rounds_chain each cursor).imp fun _ _ chain => chain.forall_mem

/-- Each round reads a character. -/
theorem answers_rounds_length (round : Parser (Option α)) (cursor : Cursor) :
    (Parser.rounds round).Answers cursor fun values last =>
      values.length + last.rest.length ≤ cursor.rest.length := by
  have each (cursor : Cursor) : round.Answers cursor fun found _ =>
      ∀ value, found = some value → True := fun _ _ _ _ _ => trivial
  exact (answers_rounds_chain each cursor).imp fun _ _ chain => chain.length_add_le

variable {item : Parser α} {separator : Parser Unit} {good : α → Prop}

theorem answers_many (each : ∀ cursor, item.Answers cursor fun value _ => good value)
    (cursor : Cursor) :
    (Parser.many item).Answers cursor fun values _ => ∀ value ∈ values, good value := by
  refine answers_rounds ?_ cursor
  intro cursor
  refine .optional ((each cursor).imp ?_) fun _ value member => nomatch member
  rintro value next isGood _ ⟨⟩
  exact isGood

theorem answers_separated1 (each : ∀ cursor, item.Answers cursor fun value _ => good value)
    (cursor : Cursor) :
    (Parser.separated1 separator item).Answers cursor fun values _ =>
      values ≠ [] ∧ ∀ value ∈ values, good value := by
  refine .bind (each cursor) ?_
  intro first next isGood
  have behind (cursor : Cursor) :
      (separator >>= fun _ => item).Answers cursor fun value _ => good value :=
    .after fun _ next => each next
  refine .bind (answers_many behind next) ?_
  intro others last areGood
  exact .pure ⟨List.cons_ne_nil _ _, List.forall_mem_cons.mpr ⟨isGood, areGood⟩⟩

theorem answers_separated (each : ∀ cursor, item.Answers cursor fun value _ => good value)
    (cursor : Cursor) :
    (Parser.separated separator item).Answers cursor fun values _ =>
      ∀ value ∈ values, good value := by
  have found : (Parser.optional (Parser.separated1 separator item)).Answers cursor
      fun values _ => ∀ value ∈ values.getD [], good value := by
    refine .optional ((answers_separated1 each cursor).imp ?_) ?_
    · exact fun values next areGood => areGood.2
    · intro _ value member
      cases member
  exact .bind found fun values next areGood => .pure areGood

theorem answers_untilEnd (each : ∀ cursor, item.Answers cursor fun value _ => good value)
    (cursor : Cursor) :
    (untilEnd item).Answers cursor fun values _ => ∀ value ∈ values, good value := by
  refine answers_rounds ?_ cursor
  intro cursor
  refine .after fun ended next => ?_
  split
  · exact .pure fun value member => nomatch member
  · refine .bind (each next) ?_
    intro value next isGood
    refine .pure ?_
    rintro _ ⟨⟩
    exact isGood

end Repetition

theorem not_rejectsAt_optional (parser : Parser α) (cursor : Cursor) :
    ¬ (optional parser).RejectsAt cursor := by
  rintro ⟨error, rejected⟩
  simp only [optional, recover, read_bind] at rejected
  cases read : parser.read cursor with
  | accept value next =>
      rw [read] at rejected
      cases rejected
  | reject error =>
      rw [read] at rejected
      cases rejected
  | abort error =>
      rw [read] at rejected
      cases rejected

/-- A repetition ends where its item is rejected. -/
theorem not_rejectsAt_many {item : Parser α} (consumes : item.Consumes) (cursor : Cursor) :
    ¬ (many item).RejectsAt cursor := by
  induction size : cursor.rest.length using Nat.strongRecOn generalizing cursor with
  | ind size inductionHypothesis =>
      subst size
      rintro ⟨error, rejected⟩
      rw [many, read_rounds] at rejected
      cases read : (optional item).read cursor with
      | reject error => exact not_rejectsAt_optional item cursor ⟨error, read⟩
      | abort error =>
          rw [read] at rejected
          cases rejected
      | accept found next =>
          have shorter : (optional item).Answers cursor fun found next =>
              found ≠ none → next.rest.length < cursor.rest.length :=
            .optional (fun value next accepted _ => consumes cursor value next accepted)
              (fun _ isNone => absurd rfl isNone)
          have forward := le_of_read read
          have isShorter := shorter found next read
          rw [read] at rejected
          cases found with
          | none => cases rejected
          | some value =>
              have less := isShorter (by simp)
              simp only [Cursor.offset_lt_of_length_lt forward less, if_true] at rejected
              split at rejected
              · cases rejected
              · next error others => exact inductionHypothesis _ less next rfl ⟨error, others⟩
              · cases rejected

/-! What an acceptance requires. -/

/-- The parser accepts the text with a value like the given ones only if the condition holds. -/
def Requires (parser : Parser α) (input : List Char) (alike : α → Prop) (condition : Prop) : Prop :=
  ∀ offset, parser.Answers ⟨offset, input⟩ fun found _ => alike found → condition

section Requirements

variable {parser : Parser α} {further : α → Parser β} {input left : List Char}
  {alike good : α → Prop} {fine : β → Prop} {condition : Prop}

theorem Requires.imp (requires : parser.Requires input alike condition) {weaker : Prop}
    (implies : condition → weaker) : parser.Requires input alike weaker :=
  fun offset => (requires offset).imp fun _ _ holds isAlike => implies (holds isAlike)

theorem Reads.requires (reads : parser.Reads input left good)
    (implies : ∀ value, good value → alike value → condition) :
    parser.Requires input alike condition :=
  fun offset => (reads.answers offset).imp fun value _ found => implies value found.1

theorem Rejects.requires (rejects : parser.Rejects input) :
    parser.Requires input alike condition :=
  fun offset => rejects.answers offset

/-- If the condition is enough for the text to be read, then it is known what is left of it. -/
theorem Requires.aligned (requires : parser.Requires input alike condition)
    (reads : condition → parser.Reads input left good) (offset : Nat) :
    parser.Answers ⟨offset, input⟩ fun found next =>
      alike found → condition ∧ ∃ stop, next = ⟨stop, left⟩ := by
  intro found next accepted isAlike
  have holds := requires offset found next accepted isAlike
  obtain ⟨_, stop, read, -⟩ := reads holds offset
  rw [read] at accepted
  cases accepted
  exact ⟨holds, stop, rfl⟩

theorem Requires.pure {value : α} (implies : alike value → condition) :
    (Pure.pure value : Parser α).Requires input alike condition :=
  fun _ => .pure implies

/-- A first part that is read in any case requires nothing. -/
theorem Requires.after (reads : parser.Reads input left good)
    (requires : ∀ value, good value → (further value).Requires left fine condition) :
    (parser >>= further).Requires input fine condition := by
  intro offset
  refine .bind (reads.answers offset) ?_
  rintro value ⟨stop, _⟩ ⟨isGood, rfl⟩
  exact requires value isGood stop

/-- What the first part requires is known behind it, since the result shows whether that part was
read as it had to be. -/
theorem Requires.bind {part : Prop} (first : parser.Requires input alike part)
    (reads : part → parser.Reads input left good)
    (shows : ∀ value cursor, (further value).Answers cursor fun found _ => fine found → alike value)
    (second : part → ∀ value, alike value → (further value).Requires left fine condition) :
    (parser >>= further).Requires input fine condition := by
  intro offset
  refine .bind (first.aligned reads offset) fun value next aligned => ?_
  by_cases isAlike : alike value
  · obtain ⟨holds, stop, rfl⟩ := aligned isAlike
    exact second holds value isAlike stop
  · exact (shows value next).imp fun _ _ shown isFine => absurd (shown isFine) isAlike

/-- A last part on which the result depends. -/
theorem Requires.map {result : α → β} (requires : parser.Requires input alike condition)
    (shows : ∀ value, fine (result value) → alike value) :
    (parser >>= fun value => Pure.pure (result value)).Requires input fine condition :=
  fun offset => .bind (requires offset) fun value _ holds => .pure fun isFine =>
    holds (shows value isFine)

/-- A parser of other values requires anything. -/
theorem requires_of_other (others : ∀ cursor, parser.Answers cursor fun found _ => ¬ alike found) :
    parser.Requires input alike condition :=
  fun offset => (others ⟨offset, input⟩).imp fun _ _ other isAlike => absurd isAlike other

theorem Requires.located [Located α]
    (requires : parser.Requires input (fun value => ∃ origin, alike (Located.relocate origin value))
      condition) :
    (Parser.located parser).Requires input alike condition :=
  fun offset => .located ((requires offset).imp fun _ _ holds origin isAlike =>
    holds ⟨origin, isAlike⟩)

theorem Requires.expecting (expectation : Expectation)
    (requires : parser.Requires input alike condition) :
    (Parser.expecting expectation parser).Requires input alike condition :=
  fun offset => .expecting _ (requires offset)

theorem Requires.commit (requires : parser.Requires input alike condition) :
    (Parser.commit parser).Requires input alike condition :=
  fun offset => .commit (requires offset)

theorem Requires.optional {found : Option α → Prop}
    (requires : parser.Requires input (fun value => found (some value)) condition)
    (nothing : found none → condition) :
    (Parser.optional parser).Requires input found condition :=
  fun offset => .optional (requires offset) fun _ => nothing

theorem Requires.firstOf {parsers : List (Parser α)}
    (requires : parsers.Forall fun parser => parser.Requires input alike condition) :
    (Parser.firstOf parsers).Requires input alike condition :=
  fun offset => .firstOf (answersOne_of_forall fun parser member =>
    List.forall_iff_forall_mem.mp requires parser member offset)

variable {ι : Type} {item : Parser α} {between : Parser Unit} {like : ι → α → Prop}
  {items : List ι}

/-- Items in a row, each of which requires a part of a condition. -/
inductive RequiresRow (item : Parser α) (between : Parser Unit) (like : ι → α → Prop) :
    List ι → List Char → Prop → Prop
  | last {last : ι} {input : List Char} {condition : Prop}
      (requires : item.Requires input (like last) condition) :
      RequiresRow item between like [last] input condition
  | cons {first : ι} {others : List ι} {input middle behind : List Char}
      {part rest condition : Prop} {good : α → Prop}
      (requires : item.Requires input (like first) part)
      (reads : part → item.Reads input middle good)
      (separates : between.Reads middle behind fun _ => True)
      (row : RequiresRow item between like others behind rest)
      (both : part → rest → condition) :
      RequiresRow item between like (first :: others) input condition

/-- The first item of a row, and the others behind it. -/
theorem RequiresRow.split (row : RequiresRow item between like items input condition) :
    ∃ first others part rest, items = first :: others ∧ (part → rest → condition) ∧
      ∀ offset, item.Answers ⟨offset, input⟩ fun found next => like first found → part ∧
        (many do between; item).Answers next fun values _ =>
          List.Forall₂ like others values → rest := by
  induction row with
  | @last last input condition requires =>
      refine ⟨last, [], condition, True, rfl, fun holds _ => holds, ?_⟩
      intro offset found next accepted isLike
      exact ⟨requires offset found next accepted isLike, fun _ _ _ _ => trivial⟩
  | @cons first others input middle behind part rest condition good requires reads separates row
      both inductionHypothesis =>
      obtain ⟨second, further, inner, outer, rfl, innerBoth, answers⟩ := inductionHypothesis
      refine ⟨first, second :: further, part, rest, rfl, both, fun offset => ?_⟩
      refine (requires.aligned reads offset).imp fun found next aligned isLike => ?_
      obtain ⟨holds, stop, rfl⟩ := aligned isLike
      refine ⟨holds, ?_⟩
      -- One more round: the separator, and the second item behind it.
      have round : (do between; item : Parser α).Answers ⟨stop, middle⟩ fun found next =>
          like second found → inner ∧ (many do between; item).Answers next fun values _ =>
            List.Forall₂ like further values → outer := by
        refine .bind (separates.answers stop) ?_
        rintro _ ⟨after, _⟩ ⟨-, rfl⟩
        exact answers after
      refine .rounds ?_ ?_
      · intro _ _ _ _ areLike
        cases areLike
      · refine .optional (round.imp ?_) (fun _ value isSome => nomatch isSome)
        rintro found next continues _ ⟨⟩ _ values last accepted areLike
        obtain ⟨isLike, areLike⟩ := List.forall₂_cons.mp areLike
        obtain ⟨holds, others⟩ := continues isLike
        exact innerBoth holds (others values last accepted areLike)

theorem RequiresRow.separated1 (row : RequiresRow item between like items input condition) :
    (Parser.separated1 between item).Requires input (List.Forall₂ like items) condition := by
  obtain ⟨first, others, part, rest, rfl, both, answers⟩ := row.split
  intro offset
  refine .bind (answers offset) fun found next continues => ?_
  by_cases isLike : like first found
  · obtain ⟨holds, areOthers⟩ := continues isLike
    refine .bind areOthers fun values last areLike => .pure fun alike => ?_
    exact both holds (areLike (List.forall₂_cons.mp alike).2)
  · exact .after fun values _ => .pure fun alike => absurd (List.forall₂_cons.mp alike).1 isLike

/-- The first of the items up to the end of the text, and the others behind it. -/
theorem Requires.untilEnd_cons {part rest : Prop} {others : List α → Prop}
    (first : item.Requires input alike part) (reads : part → item.Reads input left good)
    (behind : (untilEnd item).Requires left others rest) :
    (untilEnd item).Requires input (fun values => ∃ value further, values = value :: further ∧
      alike value ∧ others further) (part ∧ rest) := by
  intro offset
  have round : (do
      if ← Parser.atEnd then return none
      return some (← item) : Parser (Option α)).Answers ⟨offset, input⟩ fun found next =>
      ∀ value, found = some value → alike value → part ∧ ∃ stop, next = ⟨stop, left⟩ := by
    refine .bind (Reads.atEnd.answers offset) ?_
    rintro ended ⟨start, _⟩ ⟨-, rfl⟩
    cases ended with
    | true => exact .pure fun value isSome => nomatch isSome
    | false =>
        refine .bind (first.aligned reads start) fun found next aligned => .pure ?_
        rintro _ ⟨⟩
        exact aligned
  refine .rounds ?_ ?_
  · rintro _ _ _ _ ⟨_, _, isCons, -⟩
    cases isCons
  · refine round.imp ?_
    rintro found next aligned value isSome _ values last accepted ⟨_, _, isCons, isAlike, areAlike⟩
    cases isCons
    obtain ⟨holds, stop, rfl⟩ := aligned value isSome isAlike
    exact ⟨holds, behind stop values last accepted areAlike⟩

end Requirements

/-- What each step of a recursive family preserves, the family has. -/
theorem answers_fix_between {ι : Type} {step : (ι → Parser α) → ι → Parser α}
    (good : Cursor → α → Cursor → Prop)
    (preserves : ∀ family : ι → Parser α,
      (∀ index cursor, (family index).Answers cursor (good cursor)) →
        ∀ index cursor, (step family index).Answers cursor (good cursor))
    (index : ι) (cursor : Cursor) : (fix step index).Answers cursor (good cursor) := by
  refine .rest ?_
  generalize cursor.rest = text
  induction text generalizing index cursor with
  | nil => exact preserves _ (fun _ _ => answers_fail _ _) index cursor
  | cons character text inductionHypothesis =>
      exact preserves _ inductionHypothesis index cursor

theorem answers_fix {ι : Type} {step : (ι → Parser α) → ι → Parser α} {good : α → Prop}
    (preserves : ∀ family : ι → Parser α,
      (∀ index cursor, (family index).Answers cursor fun value _ => good value) →
        ∀ index cursor, (step family index).Answers cursor fun value _ => good value)
    (index : ι) (cursor : Cursor) :
    (fix step index).Answers cursor fun value _ => good value :=
  answers_fix_between (fun _ value _ => good value) preserves index cursor

theorem Answers.run {parser : Parser α} {text : List Char} {good : α → Cursor → Prop}
    (answers : parser.Answers (.start text) good) {value : α}
    (accepted : parser.run text = .ok value) : ∃ last, last.rest = [] ∧ good value last := by
  unfold Parser.run at accepted
  split at accepted
  · next found last read =>
      split at accepted
      · next isEnd =>
          cases accepted
          exact ⟨last, List.isEmpty_iff.mp isEnd, answers _ _ read⟩
      · cases accepted
  all_goals cases accepted

end SoftRules.Parser
