import SoftRules.Proofs.Grammar.Body
import SoftRules.Proofs.Grammar.CoupledLiteral

/-!
Rules and weak constraints on coupled texts.

The copy of a rule is cut off behind the period of the rule, the copy of a weak constraint behind
its closing bracket. Either is accepted, up to the cut, if the statement was. Only the weight in
front of a rule could mistake that period for a decimal point; but something other than a number
stands between the two.
-/

set_option autoImplicit false

namespace SoftRules.Grammar

open SoftRules.Parser

variable {coupling : Coupling}

/-! Heads and bodies. -/

theorem loosely_theoryAtom : Loosely coupling TheoryAtom.erase theoryAtom theoryAtom := by
  have elements : Parallel (List.map Element.erase) coupling.Beside
      (do space; braced (separated (spacedToken ";") (element literal)))
      (do space; braced (separated (spacedToken ";") (element literal))) :=
    .bind (parallel_space coupling) fun _ _ _ => parallel_items fun _ =>
      loosely_element loosely_literal
  have guard : Closely coupling Guard.erase
      (do space; let relation ← relation; space; return { relation, term := ← term })
      (do space; let relation ← relation; space; return { relation, term := ← term }) := by
    refine .after (parallel_space coupling) fun _ _ _ => .after parallel_relation ?_
    rintro relation _ rfl
    refine .after (parallel_space coupling) fun _ _ _ => closely_term.map fun _ _ same => ?_
    simp only [Guard.erase, same]
    rfl
  refine .located TheoryAtom.erase_relocate (.expecting _ ?_)
  refine .after (parallel_plainChar (by decide)) fun _ _ _ => ?_
  refine .after (parallel_name (by decide)) ?_
  rintro name _ rfl
  refine .after (parallel_arguments fun _ => parallel_term).optional ?_
  intro arguments arguments' sameArguments
  refine .after elements.optional fun elements elements' sameElements => ?_
  refine guard.loosely.optional.map fun guard guard' sameGuard => ?_
  have terms := view_getD (view_fst sameArguments) []
  have items := view_getD sameElements []
  simp only [TheoryAtom.erase, Term.eraseAll_eq, Element.eraseAll_eq, terms, items, sameGuard]
  rfl

theorem loosely_head : Loosely coupling Head.erase head head := by
  refine .expecting _ (loosely_firstOf (.cons ?_ (.cons ?_ (.cons ?_ .nil))))
  · exact loosely_theoryAtom.map fun _ _ same => congrArg Head.theory same
  · exact (loosely_aggregate loosely_literal).map fun _ _ same => congrArg Head.aggregate same
  · exact (loosely_literal coupling).map fun _ _ same => congrArg Head.literal same

theorem loosely_bodyElement :
    Loosely coupling BodyElement.erase bodyElement bodyElement := by
  refine .expecting _ (loosely_firstOf (.cons ?_ (.cons ?_ .nil)))
  · exact loosely_theoryAtom.map fun _ _ same => congrArg BodyElement.theory same
  · refine (loosely_conditional loosely_literal).map ?_
    rintro ⟨literal, condition, origin⟩ ⟨literal', condition', origin'⟩ same
    simp only [Conditional.erase, Conditional.mk.injEq, and_true] at same
    cases condition <;> cases condition' <;>
      simp_all [BodyElement.erase, Conditional.erase, Literal.eraseAll]

theorem loosely_body : Loosely coupling (List.map BodyElement.erase) body body := by
  refine loosely_bodyElement.separated1 ?_ ?_ ?_
  · exact parallel_firstOf (.cons (parallel_spacedToken (by decide))
      (.cons (parallel_spacedToken (by decide)) .nil))
  · exact consumes_firstOf ⟨consumes_spacedToken (by decide), consumes_spacedToken (by decide)⟩
  · exact fun _ halted => rejects_firstOf (.cons (halted.rejects_spacedToken (by decide))
      (.cons (halted.rejects_spacedToken (by decide)) .nil))

/-- What the head and the body of a rule show. -/
def viewParts : Head × List BodyElement → Head × List BodyElement :=
  Prod.map Head.erase (List.map BodyElement.erase)

theorem loosely_headAndBody : Loosely coupling viewParts headAndBody headAndBody := by
  have behind : Loosely coupling (List.map BodyElement.erase) (do spacedToken ":-"; commit body)
      (do spacedToken ":-"; commit body) :=
    .after (parallel_spacedToken (by decide)) fun _ _ _ => loosely_body.commit
  refine loosely_firstOf (.cons ?_ (.cons (loosely_head.bind ?_ ?_ ?_) .nil))
  · refine .after (parallel_token (by decide)) fun _ _ _ => ?_
    refine .after (parallel_space coupling) fun _ _ _ => ?_
    exact loosely_body.commit.map fun _ _ same => Prod.ext rfl same
  · intro head head' sameHead
    exact behind.optional.map fun _ _ sameBody => Prod.ext sameHead (view_getD sameBody [])
  all_goals
    exact fun _ => .bind (lenient_optional fun _ halted =>
      .bind (halted.rejects_spacedToken (by decide))) fun _ => lenient_pure _

/-! Periods in front of the cut. -/

theorem Pieces.behind_period {text rest : List Char} (pieces : Pieces ('.' :: text) rest)
    (inside : rest.length ≤ text.length) :
    Pieces text rest ∨ ∃ others, text = '.' :: others ∧ Pieces others rest := by
  cases pieces with
  | nil => exact absurd inside (by simp)
  | plain isPlain _ => cases isPlain
  | point _ others => exact .inl others
  | interval others => exact .inr ⟨_, rfl, others⟩

/-- The texts stand beside each other, or both are in the middle of an interval. -/
def Coupling.AfterPeriod (coupling : Coupling) (text text' : List Char) : Prop :=
  coupling.Beside text text' ∨ text.head? = some '.' ∧ text'.head? = some '.'

theorem afterPeriod_cut {frame : Frame} {start : List Char}
    (pieces : Pieces ('.' :: (start ++ frame.stop :: frame.whole)) (frame.stop :: frame.whole)) :
    (Coupling.cut frame).AfterPeriod (start ++ frame.stop :: frame.whole)
      (start ++ frame.stop :: frame.part) := by
  obtain others | ⟨rest, isText, others⟩ := pieces.behind_period (by simp)
  · exact .inl ⟨start, rfl, rfl, others⟩
  · cases start with
    | nil =>
        have tooLong := others.suffix.length_le
        have sameLength := congrArg List.length isText
        simp only [List.nil_append, List.length_cons] at tooLong sameLength
        omega
    | cons first start =>
        have isPeriod := (List.cons.inj isText).1
        exact .inr ⟨congrArg some isPeriod, congrArg some isPeriod⟩

section AfterPeriod

variable {left right : Cursor}

theorem solid_of_period {text : List Char} (isPeriod : text.head? = some '.') : Solid text := by
  obtain ⟨others, rfl⟩ := List.head?_eq_some_iff.mp isPeriod
  exact solid_cons rfl (by decide)

theorem inStep_space_after (after : coupling.AfterPeriod left.rest right.rest) :
    InStep id coupling.AfterPeriod space space left right := by
  obtain beside | ⟨isPeriod, isPeriod'⟩ := after
  · exact (parallel_space coupling left right beside).imp fun _ _ => .inl
  · exact inStep_of_reads (solid_of_period isPeriod).reads_no_space
      (solid_of_period isPeriod').reads_no_space (fun _ _ _ _ => rfl)
      (.inr ⟨isPeriod, isPeriod'⟩)

/-- What does not start with a period is in step behind one. -/
theorem inStep_after {α γ : Type} {view : α → γ} {parser : Parser α}
    (parallel : Parallel view coupling.Beside parser parser)
    (rejects : ∀ text : List Char, text.head? = some '.' → parser.Rejects text)
    (after : coupling.AfterPeriod left.rest right.rest) :
    InStep view coupling.Beside parser parser left right := by
  obtain beside | ⟨isPeriod, isPeriod'⟩ := after
  · exact parallel left right beside
  · exact inStep_of_rejects (rejects _ isPeriod) (rejects _ isPeriod')

end AfterPeriod

/-! Weak constraints. -/

theorem Coupling.Beside.behind_period {text text' : List Char} (stops : coupling.StopsAt ']')
    (beside : coupling.Beside ('.' :: text) ('.' :: text')) : coupling.AfterPeriod text text' := by
  cases coupling with
  | same => exact .inl (List.cons.inj beside).2
  | cut frame =>
      obtain ⟨start, isText, isText', pieces⟩ := beside
      cases start with
      | nil =>
          have isStop := (List.cons.inj isText).1
          rw [show frame.stop = ']' from stops] at isStop
          cases isStop
      | cons first start =>
          obtain ⟨rfl, rfl⟩ := List.cons.inj isText
          obtain ⟨-, rfl⟩ := List.cons.inj isText'
          exact afterPeriod_cut pieces

theorem inStep_spacedPeriod (stops : coupling.StopsAt ']') {left right : Cursor}
    (beside : coupling.Beside left.rest right.rest) :
    InStep id coupling.AfterPeriod (spacedToken ".") (spacedToken ".") left right := by
  refine .explain _ (.bind (parallel_space coupling left right beside) ?_)
  rintro _ _ ⟨start, text⟩ ⟨start', text'⟩ _ (nextBeside : coupling.Beside text text')
  have period : InStep id coupling.AfterPeriod (word ['.']) (word ['.']) ⟨start, text⟩
      ⟨start', text'⟩ := by
    by_cases isPeriod : '.' ∈ text.head?
    · obtain ⟨others, rfl⟩ := List.head?_eq_some_iff.mp isPeriod
      obtain ⟨others', rfl⟩ := List.head?_eq_some_iff.mp (nextBeside.head? ▸ isPeriod)
      exact inStep_of_reads (.word ['.'] others) (.word ['.'] others') (fun _ _ _ _ => rfl)
        (nextBeside.behind_period stops)
    · have refused {text : List Char} (noPeriod : '.' ∉ text.head?) : ¬ ['.'] <+: text := by
        rintro ⟨others, rfl⟩
        exact noPeriod rfl
      exact inStep_of_rejects (rejects_word (refused isPeriod))
        (rejects_word (refused (nextBeside.head? ▸ isPeriod)))
  exact .bind period fun _ _ _ _ _ after => inStep_space_after after

theorem inStep_closingToken (stops : coupling.StopsAt ']') {left right : Cursor}
    (beside : coupling.Beside left.rest right.rest) :
    InStep id coupling.Behind (token "]") (token "]") left right := by
  obtain ⟨start, text⟩ := left
  obtain ⟨start', text'⟩ := right
  obtain ⟨rest, rest', rfl, rfl, behind⟩ | ⟨refused, refused'⟩ :=
    Coupling.Beside.closing (by decide) stops beside
  · exact inStep_of_reads (reads_token "]" rest) (reads_token "]" rest') (fun _ _ _ _ => rfl) behind
  · have noToken {text : List Char} (refused : ']' ∉ text.head?) : ¬ "]".toList <+: text := by
      rintro ⟨others, rfl⟩
      exact refused rfl
    exact inStep_of_rejects (rejects_token (noToken refused)) (rejects_token (noToken refused'))

theorem inStep_weakConstraint (stops : coupling.StopsAt ']') {left right : Cursor}
    (beside : coupling.Beside left.rest right.rest) :
    InStep WeakConstraint.erase coupling.Behind weakConstraint weakConstraint left right := by
  have noCrossing := stops.not_crosses (by decide)
  have terms := @parallel_term coupling noCrossing
  have priority : Parallel Term.erase coupling.Beside (do spacedToken "@"; term)
      (do spacedToken "@"; term) :=
    .bind (parallel_spacedToken (by decide)) fun _ _ _ => terms
  have further : Parallel Term.erase coupling.Beside (do spacedToken ","; term)
      (do spacedToken ","; term) :=
    .bind (parallel_spacedToken (by decide)) fun _ _ _ => terms
  have bracket (text : List Char) (isPeriod : text.head? = some '.') :
      (token "[").Rejects text := by
    obtain ⟨others, rfl⟩ := List.head?_eq_some_iff.mp isPeriod
    exact rejects_token (by simp)
  refine .located WeakConstraint.erase_relocate (.explain _ ?_)
  refine .bind (parallel_token (by decide) _ _ beside) fun _ _ _ _ _ beside => ?_
  refine .bind (parallel_space coupling _ _ beside) fun _ _ _ _ _ beside => .commit ?_
  refine .bind (loosely_body.parallel noCrossing _ _ beside) fun body body' _ _ sameBody beside => ?_
  refine .bind (inStep_spacedPeriod stops beside) fun _ _ _ _ _ after => ?_
  refine .bind (inStep_after (parallel_token (by decide)) bracket after) fun _ _ _ _ _ beside => ?_
  refine .bind (parallel_space coupling _ _ beside) fun _ _ _ _ _ beside => ?_
  refine .bind (terms _ _ beside) fun weight weight' _ _ sameWeight beside => ?_
  refine .bind (priority.optional _ _ beside) fun level level' _ _ sameLevel beside => ?_
  refine .bind (further.many coupling.keepsLag _ _ beside) fun key key' _ _ sameKey beside => ?_
  refine .bind (parallel_space coupling _ _ beside) fun _ _ _ _ _ beside => ?_
  refine .bind (inStep_closingToken stops beside) fun _ _ _ _ _ behind => .pure ?_ behind
  have samePriority := view_getD sameLevel (Term.number 0)
  simp only [WeakConstraint.erase, Term.eraseAll_eq, sameBody, sameWeight, samePriority, sameKey]

/-! Weights. -/

def isNumeric (character : Char) : Bool := character.isDigit || character == '-'

/-- Something other than digits and signs stands in front of the cut. -/
def Coupling.Deep : Coupling → List Char → List Char → Prop
  | same, text, text' => text = text'
  | cut frame, text, text' => ∃ start, text = start ++ frame.stop :: frame.whole ∧
      text' = start ++ frame.stop :: frame.part ∧ Pieces text (frame.stop :: frame.whole) ∧
        ∃ character ∈ start, isNumeric character = false

theorem Coupling.Deep.beside {text text' : List Char} (deep : coupling.Deep text text') :
    coupling.Beside text text' := by
  cases coupling with
  | same => exact deep
  | cut frame =>
      obtain ⟨start, isText, isText', pieces, -⟩ := deep
      exact ⟨start, isText, isText', pieces⟩

theorem unrolls_deep {accepts : Char → Bool}
    (numeric : ∀ character, accepts character = true → isNumeric character = true) :
    Unrolls coupling.Deep accepts := by
  cases coupling with
  | same => exact unrolls_eq accepts
  | cut frame =>
      rintro _ _ ⟨start, rfl, rfl, pieces, other, member, isOther⟩
      cases start with
      | nil => cases member
      | cons first start =>
          refine .inr ⟨first, _, _, rfl, rfl, fun accepted => ?_⟩
          have isNumeric := numeric first accepted
          obtain rfl | isBehind := List.mem_cons.mp member
          · rw [isNumeric] at isOther
            cases isOther
          · refine ⟨start, rfl, rfl, pieces.tail (by simp) ?_, other, isBehind, isOther⟩
            exact isPlain_of_ne (by decide) first isNumeric

/-- The decimal point of a weight is not the period at the end of the rule. -/
theorem inStep_fraction {left right : Cursor} (deep : coupling.Deep left.rest right.rest) :
    InStep id coupling.Beside (do char '.'; digits) (do char '.'; digits) left right := by
  obtain ⟨start, text⟩ := left
  obtain ⟨start', text'⟩ := right
  have sameHead := deep.beside.head?
  by_cases isPeriod : '.' ∈ text.head?
  · obtain ⟨others, rfl⟩ := List.head?_eq_some_iff.mp isPeriod
    obtain ⟨others', rfl⟩ := List.head?_eq_some_iff.mp (sameHead ▸ isPeriod)
    have after : coupling.AfterPeriod others others' := by
      cases coupling with
      | same => exact .inl (List.cons.inj deep).2
      | cut frame =>
          obtain ⟨before, isText, isText', pieces, _, member, _⟩ := deep
          cases before with
          | nil => cases member
          | cons first before =>
              obtain ⟨rfl, rfl⟩ := List.cons.inj isText
              obtain ⟨-, rfl⟩ := List.cons.inj isText'
              exact afterPeriod_cut pieces
    have point : InStep id coupling.AfterPeriod (char '.') (char '.') ⟨start, '.' :: others⟩
        ⟨start', '.' :: others'⟩ :=
      inStep_of_reads (.char _ _) (.char _ _) (fun _ _ _ _ => rfl) after
    refine .bind point fun _ _ _ _ _ after => inStep_after parallel_digits ?_ after
    intro text isPeriod
    refine rejects_digits ?_
    rw [isPeriod]
    rintro _ ⟨⟩
    rfl
  · exact inStep_of_rejects (.bind (rejects_char isPeriod))
      (.bind (rejects_char (sameHead ▸ isPeriod)))

/-- The characters of a number. -/
def numberText : Parser Unit := do
  let _ ← optional (char '-')
  let _ ← digits
  let _ ← optional do char '.'; digits
  let _ ← optional do
    let _ ← oneOf ['e', 'E']
    let _ ← optional (oneOf ['+', '-'])
    digits

theorem inStep_numberText {left right : Cursor} (deep : coupling.Deep left.rest right.rest) :
    InStep id coupling.Beside numberText numberText left right := by
  have minus : Parallel id coupling.Deep (char '-') (char '-') := by
    refine parallel_char (unrolls_deep ?_)
    intro character isMinus
    rw [beq_iff_eq.mp isMinus]
    rfl
  have whole : Parallel id coupling.Deep digits digits := by
    refine parallel_takeWhile1 (unrolls_deep ?_) _
    intro character isDigit
    simp [isNumeric, isDigit]
  have exponent : Parallel id coupling.Beside
      (do let _ ← oneOf ['e', 'E']; let _ ← optional (oneOf ['+', '-']); digits)
      (do let _ ← oneOf ['e', 'E']; let _ ← optional (oneOf ['+', '-']); digits) := by
    have listed (choices : List Char) (arePlain : choices.all isPlain = true) :
        Parallel id coupling.Beside (oneOf choices) (oneOf choices) := by
      refine parallel_satisfy (coupling.unrolls ?_) _
      intro character member
      exact List.all_eq_true.mp arePlain character (by simpa using member)
    exact .bind (listed _ (by decide)) fun _ _ _ => .bind (listed _ (by decide)).optional
      fun _ _ _ => parallel_digits
  refine .bind (minus.optional _ _ deep) fun _ _ _ _ _ deep => ?_
  refine .bind (whole _ _ deep) fun _ _ _ _ _ deep => ?_
  refine .bind ((inStep_fraction deep).optional deep.beside) fun _ _ _ _ _ beside => ?_
  exact .bind (exponent.optional _ _ beside) fun _ _ _ _ _ beside => .pure rfl beside

theorem inStep_weightNumber {left right : Cursor} (deep : coupling.Deep left.rest right.rest) :
    InStep id coupling.Beside weightNumber weightNumber left right :=
  .consumed coupling.keepsText deep.beside (inStep_numberText deep)

/-- The weight in front of a rule, with the space behind it. -/
def spacedWeight : Parser TheoryAtom := do
  let weight ← weight
  space
  return weight

theorem inStep_spacedWeight {left right : Cursor} (deep : coupling.Deep left.rest right.rest) :
    InStep TheoryAtom.erase coupling.Beside spacedWeight spacedWeight left right := by
  have noArrow : Parallel id coupling.Beside (refuse (oneOf ['-', '~']))
      (refuse (oneOf ['-', '~'])) := by
    refine .refuse (parallel_satisfy (coupling.unrolls ?_) _)
    exact isPlain_of_ne (by decide)
  have number : InStep TheoryAtom.erase coupling.Beside
      (located do
        return { name := "weight", arguments := [weightTerm (← weightNumber)] : TheoryAtom })
      (located do
        return { name := "weight", arguments := [weightTerm (← weightNumber)] : TheoryAtom })
      left right := by
    refine .located TheoryAtom.erase_relocate (.bind (inStep_weightNumber deep) ?_)
    rintro text _ _ _ rfl beside
    exact .pure rfl beside
  have atom : InStep TheoryAtom.erase coupling.Beside weight weight left right := by
    refine .explain _ (.bind number fun atom atom' _ _ same beside => ?_)
    refine .bind (parallel_space coupling _ _ beside) fun _ _ _ _ _ beside => ?_
    refine .bind (parallel_plainChar (by decide) _ _ beside) fun _ _ _ _ _ beside => ?_
    exact .bind (noArrow _ _ beside) fun _ _ _ _ _ beside => .pure same beside
  refine .bind atom fun atom atom' _ _ same beside => ?_
  exact .bind (parallel_space coupling _ _ beside) fun _ _ _ _ _ beside => .pure same beside

/-! A head is more than a number. -/

/-- The parser reads something that is not a part of an integer. -/
def ReadsMore {α : Type} (parser : Parser α) : Prop :=
  ∀ cursor, parser.Answers cursor fun _ next => ∃ text, cursor.rest = text ++ next.rest ∧
    ∃ character ∈ text, isNumeric character = false

section ReadsMore

variable {α β : Type} {parser : Parser α} {further : α → Parser β}

theorem ReadsMore.bind (reads : ReadsMore parser) : ReadsMore (parser >>= further) := by
  intro cursor
  refine .bind (reads cursor) ?_
  rintro value next ⟨text, isText, character, member, isOther⟩ found last accepted
  obtain ⟨others, isOthers⟩ := text_of_read accepted
  refine ⟨text ++ others, by rw [isText, isOthers, List.append_assoc], character, ?_, isOther⟩
  exact List.mem_append_left _ member

theorem ReadsMore.after (reads : ∀ value, ReadsMore (further value)) :
    ReadsMore (parser >>= further) := by
  intro cursor
  refine .bind (answers_read parser cursor) fun value next accepted => (reads value next).imp ?_
  rintro found last ⟨text, isText, character, member, isOther⟩
  obtain ⟨others, isOthers⟩ := text_of_read accepted
  refine ⟨others ++ text, by rw [isOthers, isText, List.append_assoc], character, ?_, isOther⟩
  exact List.mem_append_right _ member

theorem ReadsMore.explain (cause : ParseError.Cause) (reads : ReadsMore parser) :
    ReadsMore (Parser.explain cause parser) :=
  fun cursor => .explain cause (reads cursor)

theorem readsMore_firstOf {parsers : List (Parser α)} (reads : parsers.Forall ReadsMore) :
    ReadsMore (firstOf parsers) :=
  fun cursor => .firstOf (answersOne_of_forall fun parser member =>
    List.forall_iff_forall_mem.mp reads parser member cursor)

theorem ReadsMore.located [Located α] (reads : ReadsMore parser) :
    ReadsMore (Parser.located parser) :=
  .after fun _ => .bind reads

theorem readsMore_satisfy {accepts : Char → Bool} (kind : Mismatch)
    (others : ∀ character, accepts character = true → isNumeric character = false) :
    ReadsMore (satisfy accepts kind) := by
  intro cursor
  refine (answers_satisfy accepts kind cursor).imp fun character next found => ?_
  exact ⟨[character], found.2, character, List.mem_singleton_self _, others _ found.1⟩

theorem readsMore_char {character : Char} (isOther : isNumeric character = false) :
    ReadsMore (char character) := by
  refine .bind (readsMore_satisfy _ fun other same => ?_)
  rw [beq_iff_eq.mp same]
  exact isOther

theorem readsMore_word {character : Char} {expected : List Char}
    (isOther : isNumeric character = false) : ReadsMore (word (character :: expected)) := by
  intro cursor
  refine (answers_word cursor _).imp fun _ next found => ?_
  exact ⟨character :: expected, found, character, List.mem_cons_self, isOther⟩

theorem readsMore_aggregate (literal : Parser Literal) : ReadsMore (aggregate literal) :=
  .located (.after fun _ => .bind (.bind (readsMore_char rfl)))

theorem readsMore_atom (literal : Parser Literal) : ReadsMore (atom literal) := by
  have function : ReadsMore aggregateFunction :=
    .after fun _ => .bind (.after fun _ => .after fun _ => .bind (.bind (readsMore_char rfl)))
  have symbol : ReadsMore relation := by
    refine .explain _ (readsMore_firstOf ⟨?_, ?_, ?_, ?_, ?_, ?_, ?_⟩)
    all_goals exact .bind (readsMore_word rfl)
  refine .explain _ (readsMore_firstOf ⟨.located (readsMore_firstOf ?_),
    .bind (readsMore_aggregate literal), ?_, ?_, ?_⟩)
  · exact ⟨.bind (readsMore_word rfl), .bind (readsMore_word rfl)⟩
  · exact .bind (.located (.after fun _ => .bind function))
  · exact .located (.after fun _ => .after fun _ => .bind symbol)
  · refine .located (.after fun _ => .bind (.located (.bind (.bind (readsMore_satisfy _ ?_)))))
    intro character isLower
    have noMinus : (character == '-') = false := by
      apply beq_false_of_ne
      rintro rfl
      cases isLower
    simp [isNumeric, (isLower_classes isLower).1, noMinus]

theorem readsMore_headAndBody : ReadsMore headAndBody := by
  have isLiteral : ReadsMore literal := by
    rw [literal_eq]
    exact .located (.explain _ (.after fun _ => .bind (readsMore_atom _)))
  have isHead : ReadsMore head := by
    refine .explain _ (readsMore_firstOf ⟨?_, .bind (readsMore_aggregate literal), .bind isLiteral⟩)
    exact .bind (.located (.explain _ (.bind (readsMore_char rfl))))
  exact readsMore_firstOf ⟨.bind (.explain _ (readsMore_word rfl)), .bind isHead⟩

end ReadsMore

end SoftRules.Grammar
