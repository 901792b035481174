import SoftRules.Proofs.Grammar.CoupledRule
import SoftRules.Proofs.Grammar.ExactStatement

/-!
What follows a statement has no say in how the statement is read.

If a statement was read off the start of a text, then it is also read off the start of any shorter
text that keeps its characters, and it is the same statement. The one exception are two periods in a
row: where the second one is cut off, a term in front of both may have been read differently, so
that only the acceptance is certain.
-/

set_option autoImplicit false

namespace SoftRules.Grammar

open SoftRules.Parser

variable {coupling : Coupling}

/-! Acceptances up to the cut. -/

section Transfers

variable {α β γ δ : Type} {view : α → γ} {look : β → δ} {first second : Parser α}
  {further further' : α → Parser β} {left right : Cursor}

/-- An acceptance that ends at the cut is an acceptance of the copy as well. -/
def Transfers (coupling : Coupling) (view : α → γ) (first second : Parser α)
    (left right : Cursor) : Prop :=
  ∀ value next rest, first.read left = .accept value next → coupling.Behind next.rest rest →
    ∃ value' stop, second.read right = .accept value' ⟨stop, rest⟩ ∧
      (¬ coupling.Crosses → view value = view value')

theorem Coupling.Behind.unique {text rest rest' : List Char} (behind : coupling.Behind text rest)
    (behind' : coupling.Behind text rest') : rest = rest' := by
  cases coupling with
  | same => exact behind.symm.trans behind'
  | cut frame => exact behind.2.trans behind'.2.symm

theorem Coupling.Behind.nil_of_crosses {text rest : List Char} (behind : coupling.Behind text rest)
    (crosses : coupling.Crosses) : rest = [] := by
  cases coupling with
  | same => cases crosses
  | cut frame => exact behind.2.trans (frame.isTame crosses.1 crosses.2)

theorem Coupling.Behind.not_shorter {text rest beyond : List Char}
    (behind : coupling.Behind text rest) (isBeyond : coupling.Beyond beyond) :
    ¬ text.length < beyond.length := by
  cases coupling with
  | same => cases isBeyond
  | cut frame =>
      rw [behind.1]
      exact Nat.not_lt.mpr isBeyond

theorem transfers_of_inStep (inStep : InStep view coupling.Behind first second left right) :
    Transfers coupling view first second left right := by
  intro value next rest accepted behind
  unfold InStep at inStep
  rw [accepted] at inStep
  generalize second.read right = outcome at inStep ⊢
  cases inStep with
  | @accept _ value' _ last same nextBehind =>
      obtain rfl := behind.unique nextBehind
      exact ⟨value', last.offset, rfl, fun _ => same⟩

theorem Transfers.bind (inStep : InStep view coupling.Beside first second left right)
    (behind : ∀ value value' next last, view value = view value' →
      coupling.Beside next.rest last.rest →
        Transfers coupling look (further value) (further' value') next last) :
    Transfers coupling look (first >>= further) (second >>= further') left right := by
  intro result stop rest accepted ends
  unfold InStep at inStep
  rw [read_bind] at accepted ⊢
  generalize first.read left = outcome at inStep accepted
  generalize second.read right = outcome' at inStep ⊢
  cases inStep with
  | accept same nextBeside => exact behind _ _ _ _ same nextBeside result stop rest accepted ends
  | reject => cases accepted
  | abort => cases accepted

/-- Behind a loose production follows one that reads the last period. -/
theorem Coupling.Loose.transfers
    (loose : coupling.Loose view (first.read left) (second.read right))
    (behind : ∀ value value' next last, view value = view value' →
      coupling.Beside next.rest last.rest →
        Transfers coupling look (further value) (further' value') next last)
    (consumes : ∀ value, (further value).Consumes)
    (ends : ∀ value text, Halted text → (further' value).Reads text [] fun _ => True) :
    Transfers coupling look (first >>= further) (second >>= further') left right := by
  intro result stop rest accepted isBehind
  rw [read_bind] at accepted ⊢
  generalize first.read left = outcome at loose accepted
  generalize second.read right = outcome' at loose ⊢
  cases loose with
  | inStep inStep =>
      cases inStep with
      | accept same nextBeside =>
          exact behind _ _ _ _ same nextBeside result stop rest accepted isBehind
      | reject => cases accepted
      | abort => cases accepted
  | @halted _ value last crosses halted =>
      obtain ⟨result', stop', isAccepted, -⟩ := ends value last.rest halted last.offset
      obtain rfl := isBehind.nil_of_crosses crosses
      exact ⟨result', stop', isAccepted, fun noCrossing => absurd crosses noCrossing⟩
  | @beyond value next _ _ beyond =>
      have shorter := consumes value next result stop accepted
      exact absurd shorter (isBehind.not_shorter beyond)
  | aborted _ => cases accepted

theorem explain_accepts {parser : Parser α} {cause : ParseError.Cause} {cursor next : Cursor}
    {value : α} : (Parser.explain cause parser).read cursor = .accept value next ↔
      parser.read cursor = .accept value next := by
  simp only [Parser.explain]
  cases parser.read cursor <;> simp

theorem located_accepts [Located α] {parser : Parser α} {cursor next : Cursor} {value : α} :
    (Parser.located parser).read cursor = .accept value next ↔
      ∃ found, parser.read cursor = .accept found next ∧
        Located.relocate (some ⟨cursor.offset, next.offset⟩) found = value := by
  simp only [Parser.located, read_bind, Parser.offset, read_pure]
  cases parser.read cursor with
  | accept found last =>
      simp only [Outcome.accept.injEq]
      constructor
      · rintro ⟨rfl, rfl⟩
        exact ⟨found, ⟨rfl, rfl⟩, rfl⟩
      · rintro ⟨_, ⟨rfl, rfl⟩, rfl⟩
        exact ⟨rfl, rfl⟩
  | reject error => simp
  | abort error => simp

theorem Transfers.explain (cause : ParseError.Cause)
    (transfers : Transfers coupling view first second left right) :
    Transfers coupling view (Parser.explain cause first) (Parser.explain cause second) left
      right := by
  intro value next rest accepted behind
  obtain ⟨value', stop, accepted', same⟩ :=
    transfers value next rest (explain_accepts.mp accepted) behind
  exact ⟨value', stop, explain_accepts.mpr accepted', same⟩

theorem Transfers.located [Located α]
    (keeps : ∀ origin value, view (Located.relocate origin value) = view value)
    (transfers : Transfers coupling view first second left right) :
    Transfers coupling view (Parser.located first) (Parser.located second) left right := by
  intro value next rest accepted behind
  obtain ⟨found, isRead, rfl⟩ := located_accepts.mp accepted
  obtain ⟨value', stop, accepted', same⟩ := transfers found next rest isRead behind
  refine ⟨_, stop, located_accepts.mpr ⟨value', accepted', rfl⟩, fun noCrossing => ?_⟩
  rw [keeps, keeps, same noCrossing]

end Transfers

/-! Rules. -/

theorem Coupling.Beside.at_stop {stop : Char} {rest rest' text' : List Char}
    (stops : coupling.StopsAt stop) (beside : coupling.Beside (stop :: rest) text')
    (behind : coupling.Behind rest rest') : text' = stop :: rest' := by
  cases coupling with
  | same =>
      cases behind
      exact beside.symm
  | cut frame =>
      obtain ⟨start, isText, isText', -⟩ := beside
      obtain ⟨rfl, rfl⟩ := behind
      rw [show frame.stop = stop from stops] at isText isText'
      have isStart := congrArg List.length isText
      have nothing : start = [] := by
        apply List.eq_nil_of_length_eq_zero
        simp only [List.length_append, List.length_cons] at isStart
        omega
      rw [isText', nothing]
      rfl

/-- The period at the end of a rule. -/
theorem transfers_period {α γ : Type} {view : α → γ} {value value' : α} {left right : Cursor}
    (stops : coupling.StopsAt '.') (beside : coupling.Beside left.rest right.rest)
    (same : view value = view value') :
    Transfers coupling view (do token "."; return value) (do token "."; return value') left
      right := by
  intro result next rest accepted behind
  have reads : (do token "."; return value : Parser α).Answers left fun result next =>
      left.rest = '.' :: next.rest ∧ result = value := by
    refine .bind (.expecting _ (answers_word left _)) ?_
    intro _ next isText
    exact .pure ⟨isText, rfl⟩
  obtain ⟨isText, rfl⟩ := reads result next accepted
  rw [isText] at beside
  have isText' := beside.at_stop stops behind
  obtain ⟨start, text⟩ := right
  cases isText'
  obtain ⟨_, stop, isRead, -⟩ := reads_token "." rest start
  refine ⟨value', stop, ?_, fun _ => same⟩
  have isAccepted : (token ".").read ⟨start, '.' :: rest⟩ = .accept () ⟨stop, rest⟩ := isRead
  rw [read_bind, isAccepted]
  rfl

theorem answers_rule_start (cursor : Cursor) : rule.Answers cursor fun _ next => ∃ start,
    cursor.rest = start ++ '.' :: next.rest ∧ ∃ character ∈ start, isNumeric character = false := by
  refine .located (.expecting _ (.bind (answers_read _ cursor) ?_))
  intro weight behind isRead
  obtain ⟨before, isBefore⟩ := text_of_read isRead
  refine .bind (readsMore_headAndBody behind) ?_
  rintro ⟨head, body⟩ middle ⟨content, isContent, character, member, isOther⟩
  refine .bind (answers_read space middle) fun _ last isRead => ?_
  obtain ⟨blank, isBlank⟩ := text_of_read isRead
  refine .bind (.expecting _ (answers_word last _)) fun _ next isText => .pure fun _ => ?_
  refine ⟨before ++ (content ++ blank), ?_, character, by simp [member], isOther⟩
  rw [isBefore, isContent, isBlank, isText]
  simp

theorem Coupling.Beside.deep {text text' rest rest' start : List Char} {character : Char}
    (stops : coupling.StopsAt '.') (beside : coupling.Beside text text')
    (behind : coupling.Behind rest rest') (isText : text = start ++ '.' :: rest)
    (member : character ∈ start) (isOther : isNumeric character = false) :
    coupling.Deep text text' := by
  cases coupling with
  | same => exact beside
  | cut frame =>
      obtain ⟨other, isOtherText, isText', pieces⟩ := beside
      obtain ⟨rfl, -⟩ := behind
      have isStop : frame.stop = '.' := stops
      have isStart : other = start := by
        apply List.append_cancel_right
        rw [← isOtherText, isText, isStop]
      exact ⟨start, isStart ▸ isOtherText, isStart ▸ isText', pieces, character, member, isOther⟩

/-- Rules with the same parts are the same rule; a weight stands behind the body. -/
theorem erase_of_parts {weight weight' : Option TheoryAtom}
    {parts parts' : Head × List BodyElement}
    (sameWeight : weight.map TheoryAtom.erase = weight'.map TheoryAtom.erase)
    (sameParts : viewParts parts = viewParts parts') :
    Rule.erase { head := parts.1, body := parts.2 ++ (weight.map BodyElement.theory).toList } =
      Rule.erase
        { head := parts'.1, body := parts'.2 ++ (weight'.map BodyElement.theory).toList } := by
  have sameHead : parts.1.erase = parts'.1.erase := congrArg Prod.fst sameParts
  have sameBody : parts.2.map BodyElement.erase = parts'.2.map BodyElement.erase :=
    congrArg Prod.snd sameParts
  have sameLast : (weight.map BodyElement.theory).toList.map BodyElement.erase =
      (weight'.map BodyElement.theory).toList.map BodyElement.erase := by
    cases weight <;> cases weight' <;> simp_all [BodyElement.erase]
  simp only [Rule.erase, List.map_append, sameHead, sameBody, sameLast]

theorem transfers_rule (stops : coupling.StopsAt '.') {left right : Cursor}
    (beside : coupling.Beside left.rest right.rest) :
    Transfers coupling Rule.erase rule rule left right := by
  intro value next rest accepted behind
  -- The head of the rule keeps its weight away from the period at the cut.
  obtain ⟨start, isText, character, member, isOther⟩ := answers_rule_start left value next accepted
  have deep := beside.deep stops behind isText member isOther
  refine (?_ : Transfers coupling Rule.erase rule rule left right) value next rest accepted behind
  refine .located (fun _ _ => rfl) (.explain _ ?_)
  refine .bind ((inStep_spacedWeight deep).optional beside) ?_
  intro weight weight' middle middle' sameWeight nextBeside
  refine (loosely_headAndBody middle middle' nextBeside).transfers ?_ ?_ ?_
  · rintro ⟨head, body⟩ ⟨head', body'⟩ next last sameParts nextBeside
    refine .bind (parallel_space coupling next last nextBeside) fun _ _ _ _ _ inFront => ?_
    exact transfers_period stops inFront (erase_of_parts sameWeight sameParts)
  · rintro ⟨head, body⟩
    exact .after fun _ => .bind (.explain _ (consumes_word (by decide)))
  · rintro ⟨head, body⟩ text halted
    exact .bind halted fun _ _ => .bind (reads_token "." []) fun _ _ => .pure trivial

/-! Rules that start with a number sign are not directives. -/

/-- The letters in front are a name that no directive has. -/
def StartsReserved (text : List Char) : Prop :=
  isReserved (String.ofList (text.takeWhile Char.isAlpha)) = true

theorem StartsReserved.rejects_directive {text : List Char} (reserved : StartsReserved text) :
    directive.Rejects ('#' :: text) := by
  have nonempty : text.takeWhile Char.isAlpha ≠ [] := by
    intro nothing
    rw [StartsReserved, nothing] at reserved
    exact absurd reserved (by decide)
  have rejects := rejects_directive_reserved nonempty (List.all_eq_true.mp List.all_takeWhile)
    reserved (@head_dropWhile Char.isAlpha text)
  rwa [List.takeWhile_append_dropWhile] at rejects

/-- Nothing behind a period decides how the text starts. -/
theorem StartsReserved.of_period {text rest rest' : List Char} (hasPeriod : '.' ∈ text)
    (reserved : StartsReserved (text ++ rest)) : StartsReserved (text ++ rest') := by
  have notAll : (text.takeWhile Char.isAlpha).length ≠ text.length := by
    intro isAll
    have same := (List.takeWhile_prefix Char.isAlpha).eq_of_length isAll
    rw [← same] at hasPeriod
    exact absurd (List.all_eq_true.mp List.all_takeWhile _ hasPeriod) (by decide)
  rw [StartsReserved, List.takeWhile_append, if_neg notAll] at reserved ⊢
  exact reserved

section Sharp

variable {text : List Char}

theorem startsReserved_append {name rest : List Char}
    (letters : ∀ letter ∈ name, letter.isAlpha = true)
    (reserved : isReserved (String.ofList name) = true) :
    StartsReserved (name ++ rest) ∨ ∃ first ∈ rest.head?, first.isAlpha = true := by
  by_cases goesOn : ∃ first ∈ rest.head?, first.isAlpha = true
  · exact .inr goesOn
  · refine .inl ?_
    have stops : ∀ first ∈ rest.head?, first.isAlpha = false := by simpa using goesOn
    rw [StartsReserved, takeWhile_append letters stops]
    exact reserved

/-- The letters of an aggregate function are reserved. -/
theorem isReserved_of_symbol {function : AggregateFunction} {name plus : List Char}
    (isSymbol : function.symbol.toList = '#' :: (name ++ plus))
    (letters : ∀ letter ∈ name, letter.isAlpha = true)
    (noLetter : ∀ first ∈ plus.head?, first.isAlpha = false) :
    isReserved (String.ofList name) = true := by
  obtain ⟨others, plus', isOther, -, areLetters, isPlus, reserved⟩ := function_shape function
  have noLetter' : ∀ first ∈ plus'.head?, first.isAlpha = false := by
    obtain rfl | rfl := isPlus
    · simp
    · simp
  have same := (List.cons.inj (isSymbol.symm.trans isOther)).2
  rw [← takeWhile_append letters noLetter, same, takeWhile_append areLetters noLetter']
  exact reserved

theorem answers_aggregateFunction_sharp (offset : Nat) :
    aggregateFunction.Answers ⟨offset, '#' :: text⟩ fun _ _ => StartsReserved text := by
  refine .convert (.consumed (.bind (answers_char _ _) fun _ behind isSharp => ?_))
  obtain rfl : text = behind.rest := (List.cons.inj isSharp).2
  refine .bind (answers_takeWhile1 _ _ behind) ?_
  rintro name middle ⟨-, isName, isRest⟩
  have isText : behind.rest = name ++ middle.rest := by
    rw [isName, isRest, List.takeWhile_append_dropWhile]
  have letters : ∀ letter ∈ name, letter.isAlpha = true := by
    rw [isName]
    exact List.all_eq_true.mp List.all_takeWhile
  have isPlus : (Parser.optional (char '+')).Answers middle fun _ next => ∃ plus,
      (∀ first ∈ plus.head?, first.isAlpha = false) ∧ middle.rest = plus ++ next.rest :=
    .optional ((answers_char middle '+').imp fun _ _ isPlus => ⟨['+'], by simp, isPlus⟩)
      fun _ => ⟨[], by simp, rfl⟩
  refine .bind isPlus ?_
  rintro _ next ⟨plus, noLetter, isMiddle⟩
  refine .pure fun symbol isSymbol function converted => ?_
  have isFunction : AggregateFunction.all.find? (·.symbol == String.ofList symbol) =
      some function := by
    split at converted
    · next isFound =>
        cases converted
        exact isFound
    · cases converted
  have same : function.symbol = String.ofList symbol := by
    simpa using List.find?_some isFunction
  rw [isText, isMiddle, ← List.append_assoc, ← List.cons_append] at isSymbol
  rw [← List.append_cancel_right isSymbol] at same
  rw [StartsReserved, ← isName]
  exact isReserved_of_symbol (by rw [same, String.toList_ofList]) letters noLetter

theorem answers_boolean_sharp (offset : Nat) :
    boolean.Answers ⟨offset, '#' :: text⟩ fun _ next =>
      StartsReserved text ∨ ∃ first ∈ next.rest.head?, first.isAlpha = true := by
  refine .located (.firstOf ⟨.bind (answers_word _ _) ?_, fun _ =>
    ⟨.bind (answers_word _ _) ?_, fun _ => trivial⟩⟩)
  · intro _ next isText
    obtain rfl := (List.cons.inj isText).2
    exact .pure fun _ => @startsReserved_append "true".toList _ (by simp) (by decide)
  · intro _ next isText
    obtain rfl := (List.cons.inj isText).2
    exact .pure fun _ => @startsReserved_append "false".toList _ (by simp) (by decide)

theorem answers_literal_sharp (offset : Nat) :
    literal.Answers ⟨offset, '#' :: text⟩ fun _ next =>
      StartsReserved text ∨ ∃ first ∈ next.rest.head?, first.isAlpha = true := by
  have noTerm : ∀ first ∈ ('#' :: text).head?, isTermStart first = false := by
    rintro _ ⟨⟩
    rfl
  have noGuard := reads_leadingGuard_none noTerm
  have noAggregate : (aggregate literal).Rejects ('#' :: text) := rejects_aggregate noGuard (by simp)
  have noComparison : comparison.Rejects ('#' :: text) := .located (.bind (rejects_term noTerm))
  have function (start : Nat) : (bodyAggregate literal).Answers ⟨start, '#' :: text⟩
      fun _ _ => StartsReserved text := by
    refine .located (.bind (Reads.answers noGuard start) ?_)
    rintro _ ⟨start', _⟩ ⟨-, rfl⟩
    refine .bind (answers_aggregateFunction_sharp start') fun _ _ reserved => ?_
    exact fun _ _ _ _ => reserved
  rw [literal_eq]
  refine .located (.expecting _ (.bind (Reads.answers (@reads_sign ('#' :: text) .plain
    (solid_cons rfl (by decide)) (.inr rfl)) offset) ?_))
  rintro sign ⟨start, _⟩ ⟨-, rfl⟩
  refine .bind (.expecting _ (.firstOf ⟨answers_boolean_sharp start, fun _ =>
    ⟨Rejects.answers (.bind noAggregate) start, fun _ => ⟨?_, fun _ =>
      ⟨Rejects.answers noComparison start, fun _ =>
        ⟨Rejects.answers (rejects_predicate noTerm) start, fun _ => trivial⟩⟩⟩⟩⟩)) ?_
  · exact .bind (function start) fun _ _ reserved => .pure (.inl reserved)
  · exact fun _ _ found => .pure fun _ => found

theorem solid_of_letter {rest : List Char} {first : Char} (isFirst : first ∈ rest.head?)
    (isLetter : first.isAlpha = true) : Solid rest := by
  obtain ⟨others, rfl⟩ := List.head?_eq_some_iff.mp isFirst
  apply solid_cons
  · cases blank : isSpace first with
    | false => rfl
    | true =>
        simp only [isSpace, Bool.or_eq_true, beq_iff_eq] at blank
        obtain ((rfl | rfl) | rfl) | rfl := blank <;> cases isLetter
  · rintro rfl
    cases isLetter

/-- No token but a word goes on behind a letter. -/
theorem not_startsWith_of_letter {rest others : List Char} {first other : Char}
    (isFirst : first ∈ rest.head?) (isLetter : first.isAlpha = true)
    (noLetter : other.isAlpha = false) : ¬ other :: others <+: rest := by
  rintro ⟨behind, rfl⟩
  cases isFirst
  rw [isLetter] at noLetter
  cases noLetter

theorem answers_headAndBody_sharp (offset : Nat) :
    headAndBody.Answers ⟨offset, '#' :: text⟩ fun _ next =>
      StartsReserved text ∨ ∃ first ∈ next.rest.head?, first.isAlpha = true := by
  have noTerm : ∀ first ∈ ('#' :: text).head?, isTermStart first = false := by
    rintro _ ⟨⟩
    rfl
  have noTheory : theoryAtom.Rejects ('#' :: text) := rejects_theoryAtom (by simp)
  have noAggregate : (aggregate literal).Rejects ('#' :: text) :=
    rejects_aggregate (reads_leadingGuard_none noTerm) (by simp)
  have isHead : head.Answers ⟨offset, '#' :: text⟩ fun _ next =>
      StartsReserved text ∨ ∃ first ∈ next.rest.head?, first.isAlpha = true :=
    .expecting _ (.firstOf ⟨Rejects.answers (.bind noTheory) offset, fun _ =>
      ⟨Rejects.answers (.bind noAggregate) offset, fun _ =>
        ⟨.bind (answers_literal_sharp offset) fun _ _ found => .pure found, fun _ => trivial⟩⟩⟩)
  refine .firstOf ⟨Rejects.answers (.bind (rejects_arrow (by simp))) offset, fun _ =>
    ⟨.bind isHead ?_, fun _ => trivial⟩⟩
  rintro _ ⟨start, rest⟩ (reserved | ⟨first, isFirst, isLetter⟩)
  · exact fun _ _ _ => .inl reserved
  · have noArrow : (spacedToken ":-").Rejects ([] ++ rest) :=
      (solid_of_letter isFirst isLetter).rejects_spacedToken
        (not_startsWith_of_letter isFirst isLetter rfl) (by simp)
    refine .bind (Reads.answers (.optional_none (.bind noArrow)) start) ?_
    rintro _ ⟨_, _⟩ ⟨-, rfl⟩
    exact .pure (.inr ⟨first, isFirst, isLetter⟩)

theorem answers_rule_sharp (offset : Nat) :
    rule.Answers ⟨offset, '#' :: text⟩ fun _ _ => StartsReserved text := by
  have noWeight : weight.Rejects ('#' :: text) := rejects_weight_start (by simp) (by simp)
  refine .located (.expecting _ (.bind (Reads.answers (.optional_none (.bind noWeight)) offset) ?_))
  rintro _ ⟨start, _⟩ ⟨-, rfl⟩
  refine .bind (answers_headAndBody_sharp start) ?_
  rintro ⟨head, body⟩ ⟨start', rest⟩ (reserved | ⟨first, isFirst, isLetter⟩)
  · exact fun _ _ _ _ => reserved
  · have noPeriod : (token ".").Rejects rest :=
      rejects_token (not_startsWith_of_letter isFirst isLetter rfl)
    exact Rejects.answers (.after (solid_of_letter isFirst isLetter).reads_no_space fun _ _ =>
      .bind noPeriod) start'

end Sharp

/-! Statements on a shorter text. -/

section Parts

variable {offset last : Nat} {text rest part : List Char}

/-- A text that ends with a given character. -/
theorem text_of_pieces {stop : Char} (pieces : Pieces (text ++ rest) (stop :: rest)) :
    ∃ before, text = before ++ [stop] := by
  obtain ⟨before, isBefore⟩ := pieces.suffix
  refine ⟨before, (List.append_left_inj rest).mp ?_⟩
  simpa using isBefore.symm

theorem reads_of_part {α γ : Type} {parser : Parser α} {view : α → γ} {stop : Char}
    (isStop : stop ∈ [')', '\x7d', ']', '.'])
    (pieces : ∀ cursor, parser.Answers cursor fun _ next => Pieces cursor.rest (stop :: next.rest))
    (transfers : ∀ coupling : Coupling, coupling.StopsAt stop → ∀ left right,
      coupling.Beside left.rest right.rest → Transfers coupling view parser parser left right)
    {value : α} (accepted : parser.read ⟨offset, text ++ rest⟩ = .accept value ⟨last, rest⟩)
    (isPart : part <+: rest) (tame : rest.head? = some '.' → part = [] ∨ part = rest) :
    parser.Reads (text ++ part) part fun found =>
      (rest.head? = some '.' → part = rest) → view value = view found := by
  intro start
  -- If nothing is cut off, the same text is read at another place.
  by_cases isWhole : part = rest
  · subst isWhole
    obtain ⟨found, stop, isRead, same⟩ := transfers .same trivial ⟨offset, text ++ part⟩
      ⟨start, text ++ part⟩ rfl value _ part accepted rfl
    exact ⟨found, stop, isRead, fun _ => same id⟩
  · let frame : Frame :=
      { stop, whole := rest, part, isStop, isPart
        isTame := fun _ twice => (tame twice).resolve_right isWhole }
    have isSplit := pieces _ _ _ accepted
    obtain ⟨before, isText⟩ := text_of_pieces isSplit
    have beside : (Coupling.cut frame).Beside (text ++ rest) (text ++ part) :=
      ⟨before, by simp [isText, frame], by simp [isText, frame], isSplit⟩
    obtain ⟨found, stop, isRead, same⟩ := transfers (.cut frame) rfl ⟨offset, text ++ rest⟩
      ⟨start, text ++ part⟩ beside value _ part accepted ⟨rfl, rfl⟩
    exact ⟨found, stop, isRead, fun once => same fun crosses => isWhole (once crosses.2)⟩

theorem rejects_rule_tilde (rest : List Char) : rule.Rejects (':' :: '~' :: rest) :=
  rejects_rule (rejects_weight_start (by simp) (by simp)) (rejects_token (by simp))
    (rejects_head_colon _)

theorem answers_weakConstraint_start (cursor : Cursor) :
    weakConstraint.Answers cursor fun _ _ => ∃ others, cursor.rest = ':' :: '~' :: others :=
  .located (.expecting _ (.bind (.expecting _ (answers_word cursor _)) fun _ next isText =>
    fun _ _ _ _ => ⟨next.rest, isText⟩))

theorem rejects_directive_of_part {found : WeakConstraint}
    (accepted : weakConstraint.read ⟨offset, text ++ rest⟩ = .accept found ⟨last, rest⟩)
    (part : List Char) : directive.Rejects (text ++ part) := by
  obtain ⟨before, rfl⟩ := text_of_pieces (answers_weakConstraint_pieces _ _ _ accepted)
  obtain ⟨others, isText⟩ := answers_weakConstraint_start _ _ _ accepted
  cases before with
  | nil => cases isText
  | cons first before =>
      have isColon : first = ':' := (List.cons.inj isText).1
      exact rejects_directive (by simp [isColon])

/-- A word without a period in it ends in front of the next one. -/
theorem startsWith_of_period {word before : List Char} (noPeriod : '.' ∉ word)
    (starts : word <+: before ++ '.' :: rest) : word <+: before := by
  induction word generalizing before with
  | nil => exact List.nil_prefix
  | cons first word inductionHypothesis =>
      have others := mt (List.mem_cons_of_mem first) noPeriod
      cases before with
      | nil =>
          have isPeriod : first = '.' := (List.cons_prefix_cons.mp starts).1
          exact absurd (isPeriod ▸ List.mem_cons_self) noPeriod
      | cons second before =>
          obtain ⟨rfl, behind⟩ := List.cons_prefix_cons.mp starts
          exact List.cons_prefix_cons.mpr ⟨rfl, inductionHypothesis others behind⟩

/-- A rule starts like a rule, whatever stands behind it. -/
theorem rejects_others_of_rule {found : Rule}
    (accepted : rule.read ⟨offset, text ++ rest⟩ = .accept found ⟨last, rest⟩)
    (part : List Char) :
    directive.Rejects (text ++ part) ∧ weakConstraint.Rejects (text ++ part) := by
  obtain ⟨before, rfl⟩ := text_of_pieces (answers_rule_pieces _ _ _ accepted)
  constructor
  · cases before with
    | nil => exact rejects_directive (by simp)
    | cons first before =>
        by_cases isSharp : first = '#'
        -- The name behind the number sign ends in front of the period, on both texts alike.
        · subst isSharp
          have reserved : StartsReserved (before ++ ['.'] ++ rest) :=
            answers_rule_sharp _ _ _ accepted
          exact (reserved.of_period (by simp)).rejects_directive
        · exact rejects_directive (by simpa using isSharp)
  · refine rejects_weakConstraint fun starts => ?_
    rw [List.append_assoc] at starts accepted
    obtain ⟨others, rfl⟩ := startsWith_of_period (by decide) starts
    obtain ⟨error, rejected⟩ := rejects_rule_tilde (others ++ (['.'] ++ rest)) offset
    cases rejected.symm.trans accepted

/-- A statement is read again, on a text that goes on in another way, if each kind of statement
is. -/
theorem reads_statement_again {found : Statement} {condition : Prop}
    (accepted : statement.read ⟨offset, text ++ rest⟩ = .accept found ⟨last, rest⟩)
    (directives : ∀ content last,
      directive.read ⟨offset, text ++ rest⟩ = .accept content ⟨last, rest⟩ →
        directive.Reads (text ++ part) part fun again =>
          condition → content.erase = again.erase)
    (constraints : ∀ content last,
      weakConstraint.read ⟨offset, text ++ rest⟩ = .accept content ⟨last, rest⟩ →
        weakConstraint.Reads (text ++ part) part fun again =>
          condition → content.erase = again.erase)
    (rules : ∀ content last, rule.read ⟨offset, text ++ rest⟩ = .accept content ⟨last, rest⟩ →
      rule.Reads (text ++ part) part fun again => condition → content.erase = again.erase) :
    statement.Reads (text ++ part) part fun again => condition → found.erase = again.erase := by
  have each : statement.Answers ⟨offset, text ++ rest⟩ fun found next => next.rest = rest →
      statement.Reads (text ++ part) part fun again => condition → found.erase = again.erase := by
    refine .expecting _ (.firstOf ⟨.bind (answers_read directive _) ?_, fun _ =>
      ⟨.bind (answers_read weakConstraint _) ?_, fun _ =>
        ⟨.bind (answers_read rule _) ?_, fun _ => trivial⟩⟩⟩)
    · rintro content ⟨stop, _⟩ isRead
      refine .pure ?_
      rintro rfl
      refine .expecting _ (.firstOf (.head (.bind (directives content stop isRead) ?_)))
      exact fun _ same => .pure fun holds => congrArg Statement.directive (same holds)
    · rintro content ⟨stop, _⟩ isRead
      refine .pure ?_
      rintro rfl
      have noDirective := rejects_directive_of_part isRead part
      refine .expecting _ (.firstOf (.tail (.bind noDirective)
        (.head (.bind (constraints content stop isRead) ?_))))
      exact fun _ same => .pure fun holds => congrArg Statement.weakConstraint (same holds)
    · rintro content ⟨stop, _⟩ isRead
      refine .pure ?_
      rintro rfl
      obtain ⟨noDirective, noWeak⟩ := rejects_others_of_rule isRead part
      refine .expecting _ (.firstOf (.tail (.bind noDirective) (.tail (.bind noWeak)
        (.head (.bind (rules content stop isRead) ?_)))))
      exact fun _ same => .pure fun holds => congrArg Statement.rule (same holds)
  exact each found _ accepted rfl

/-- What follows a statement has no say in how it is read. -/
theorem reads_statement_of_part {found : Statement}
    (accepted : statement.read ⟨offset, text ++ rest⟩ = .accept found ⟨last, rest⟩)
    (isPart : part <+: rest) (tame : rest.head? = some '.' → part = [] ∨ part = rest) :
    statement.Reads (text ++ part) part fun other =>
      (rest.head? = some '.' → part = rest) → found.erase = other.erase := by
  apply reads_statement_again accepted
  · intro content last isRead
    exact (reads_directive_of_part isRead isPart).imp fun _ same _ => same
  · intro content last isRead
    exact reads_of_part (by decide) answers_weakConstraint_pieces
      (fun _ stops _ _ beside => transfers_of_inStep (inStep_weakConstraint stops beside)) isRead
      isPart tame
  · intro content last isRead
    exact reads_of_part (by decide) answers_rule_pieces
      (fun _ stops _ _ beside => transfers_rule stops beside) isRead isPart tame

end Parts

end SoftRules.Grammar
