import SoftRules.Proofs.Grammar.Passage

/-!
Statements of a text that goes on.

A statement ends at a place that nothing behind it can move. So a statement that was read at the
start of a text is also read if the text goes on with another line, unless a block comment was
opened in the text: its end could stand in the lines that follow. The two texts are coupled again,
but now it is the longer one that has to be read.
-/

set_option autoImplicit false

namespace SoftRules.Grammar

open SoftRules.Parser

/-! Comments and quoted texts. -/

section Lexemes

variable {text behind : List Char}

theorem noBlock_of_suffix {rest : List Char} (noBlock : ¬ ['%', '*'] <:+: text)
    (isSuffix : rest <:+ text) : ¬ ['%', '*'] <:+: rest :=
  fun block => noBlock (block.trans isSuffix.isInfix)

/-- A comment in a text without block comments does not start like one. -/
theorem noStar_of_noBlock (noBlock : ¬ ['%', '*'] <:+: '%' :: text) : '*' ∉ text.head? := by
  intro isStar
  obtain ⟨others, rfl⟩ := List.head?_eq_some_iff.mp isStar
  exact noBlock ⟨[], others, rfl⟩

theorem unfinished_of_noStar (noStar : '*' ∉ text.head?) : Unfinished text := by
  rintro others rfl
  exact absurd rfl noStar

/-- A line comment has ended where something is left behind it. -/
theorem steady_comment_append
    (steady : Steady comment ('%' :: text) behind fun _ => True)
    (noBlock : ¬ ['%', '*'] <:+: '%' :: (text ++ behind)) (nonempty : behind ≠ [])
    (more : List Char) : Steady comment ('%' :: text) (behind ++ more) fun _ => True := by
  have noStar := noStar_of_noBlock noBlock
  have isBehind : behind = (text ++ behind).dropWhile isInLine :=
    (steady behind (List.prefix_refl _)).left_unique (unfinished_of_noStar noStar).reads_comment
  have stops : ∀ first ∈ behind.head?, isInLine first = false := by
    rw [isBehind]
    exact head_dropWhile
  have isLine : text.dropWhile isInLine = [] := by
    rw [dropWhile_append stops] at isBehind
    exact List.self_eq_append_left.mp isBehind
  intro part isPart
  have sameHead : (behind ++ more).head? = behind.head? := by
    obtain ⟨first, others, rfl⟩ := List.exists_cons_of_ne_nil nonempty
    rfl
  have stopsToo : ∀ first ∈ part.head?, isInLine first = false := by
    intro first isFirst
    exact stops first (sameHead ▸ head?_of_part isPart isFirst)
  have stillNoStar : '*' ∉ (text ++ part).head? := by
    cases text with
    | nil => exact fun isStar => absurd (stopsToo '*' isStar) (by decide)
    | cons first text => exact noStar
  have reads := (unfinished_of_noStar stillNoStar).reads_comment
  rwa [dropWhile_append stopsToo, isLine] at reads

theorem steady_quotedText_append {value : String}
    (steady : Steady quotedText ('"' :: text) behind (· = value)) (rest : List Char) :
    Steady quotedText ('"' :: text) rest (· = value) := by
  obtain ⟨_, _, accepted, rfl⟩ := steady behind (List.prefix_refl _) 0
  obtain ⟨other, isText, anywhere⟩ := answers_quotedText_anywhere _ _ _ accepted
  have isOther : text = other := List.append_cancel_right (List.cons.inj isText).2
  rw [isOther]
  exact fun part _ => anywhere part

end Lexemes

/-- Where something stands behind them, the pieces of a text do not depend on how it goes on. -/
theorem Pieces.append {text rest : List Char} (pieces : Pieces text rest)
    (noBlock : ¬ ['%', '*'] <:+: text) (nonempty : rest ≠ []) (more : List Char) :
    Pieces (text ++ more) (rest ++ more) := by
  induction pieces with
  | nil rest => exact .nil _
  | plain isPlain _ inductionHypothesis =>
      have others := noBlock_of_suffix noBlock (List.suffix_cons _ _)
      exact .plain isPlain (inductionHypothesis others nonempty)
  | point noInterval _ inductionHypothesis =>
      have others := noBlock_of_suffix noBlock (List.suffix_cons _ _)
      exact .point noInterval (inductionHypothesis others nonempty)
  | interval _ inductionHypothesis =>
      have others := noBlock_of_suffix noBlock (List.suffix_append ['.', '.'] _)
      exact .interval (inductionHypothesis others nonempty)
  | @quoted text behind _ _ steady _ inductionHypothesis =>
      have others := noBlock_of_suffix noBlock (List.suffix_append ('"' :: text) behind)
      rw [List.cons_append, List.append_assoc]
      exact .quoted (steady_quotedText_append steady _) (inductionHypothesis others nonempty)
  | @comment text behind rest steady pieces inductionHypothesis =>
      have others := noBlock_of_suffix noBlock (List.suffix_append ('%' :: text) behind)
      have isBehind : behind ≠ [] := by
        rintro rfl
        exact nonempty (List.suffix_nil.mp pieces.suffix)
      rw [List.cons_append, List.append_assoc]
      exact .comment (steady_comment_append steady noBlock isBehind more)
        (inductionHypothesis others nonempty)
  | parentheses content _ inside outside =>
      have inner := noBlock_of_suffix noBlock (List.suffix_cons _ _)
      have outer := noBlock_of_suffix inner ((List.suffix_cons _ _).trans content.suffix)
      exact .parentheses (inside inner (List.cons_ne_nil _ _)) (outside outer nonempty)
  | braces content _ inside outside =>
      have inner := noBlock_of_suffix noBlock (List.suffix_cons _ _)
      have outer := noBlock_of_suffix inner ((List.suffix_cons _ _).trans content.suffix)
      exact .braces (inside inner (List.cons_ne_nil _ _)) (outside outer nonempty)

/-! Rules. -/

namespace Coupling

/-- The texts go on alike up to the place behind the cut. -/
def Towards : Coupling → List Char → List Char → Prop
  | same, text, text' => text = text'
  | cut frame, text, text' => ∃ start, text = start ++ frame.whole ∧ text' = start ++ frame.part

variable {coupling : Coupling} {text text' : List Char}

theorem Behind.towards (behind : coupling.Behind text text') : coupling.Towards text text' := by
  cases coupling with
  | same => exact behind
  | cut frame => exact ⟨[], behind⟩

theorem Beside.towards {first : Char}
    (beside : coupling.Beside (first :: text) (first :: text')) : coupling.Towards text text' := by
  cases coupling with
  | same => exact (List.cons.inj beside).2
  | cut frame =>
      obtain ⟨start, isText, isText', -⟩ := beside
      cases start with
      | nil => exact ⟨[], (List.cons.inj isText).2, (List.cons.inj isText').2⟩
      | cons _ start =>
          refine ⟨start ++ [frame.stop], ?_, ?_⟩
          · simpa using (List.cons.inj isText).2
          · simpa using (List.cons.inj isText').2

/-- What stands in front of the cut stands in front of it in both texts. -/
theorem Beside.text_of_copy {stop : Char} {start rest rest' : List Char}
    (stops : coupling.StopsAt stop) (beside : coupling.Beside text text')
    (behind : coupling.Behind rest rest') (isText : text' = start ++ stop :: rest') :
    text = start ++ stop :: rest := by
  cases coupling with
  | same =>
      cases beside
      cases behind
      exact isText
  | cut frame =>
      obtain ⟨other, isOther, isOther', -⟩ := beside
      obtain ⟨rfl, rfl⟩ := behind
      cases stops
      rw [isOther, List.append_cancel_right (isOther'.symm.trans isText)]

end Coupling

variable {coupling : Coupling}

theorem inStep_period {left right : Cursor} (beside : coupling.Beside left.rest right.rest) :
    InStep id coupling.Towards (token ".") (token ".") left right := by
  obtain ⟨start, text⟩ := left
  obtain ⟨start', text'⟩ := right
  change coupling.Beside text text' at beside
  by_cases isPeriod : '.' ∈ text.head?
  · obtain ⟨others, rfl⟩ := List.head?_eq_some_iff.mp isPeriod
    obtain ⟨others', rfl⟩ := List.head?_eq_some_iff.mp (beside.head? ▸ isPeriod)
    exact inStep_of_reads (reads_token "." others) (reads_token "." others')
      (fun _ _ _ _ => rfl) beside.towards
  · have noToken {text : List Char} (refused : '.' ∉ text.head?) : ¬ ".".toList <+: text := by
      rintro ⟨others, rfl⟩
      exact refused rfl
    exact inStep_of_rejects (rejects_token (noToken isPeriod))
      (rejects_token (noToken (beside.head? ▸ isPeriod)))

/-- Where no second period follows, the two texts are in step up to a period of the rule. -/
theorem inStep_rule (noCrossing : ¬ coupling.Crosses) {left right : Cursor}
    (deep : coupling.Deep left.rest right.rest) :
    InStep Rule.erase coupling.Towards rule rule left right := by
  refine .located (fun _ _ => rfl) (.explain _ ?_)
  refine .bind ((inStep_spacedWeight deep).optional deep.beside) ?_
  intro weight weight' _ _ sameWeight beside
  refine .bind (loosely_headAndBody.parallel noCrossing _ _ beside) ?_
  intro parts parts' _ _ sameParts beside
  refine .bind (parallel_space coupling _ _ beside) fun _ _ _ _ _ beside => ?_
  refine .bind (inStep_period beside) fun _ _ _ _ _ towards => .pure ?_ towards
  exact erase_of_parts sameWeight sameParts

/-! Longer texts. -/

section More

variable {offset last : Nat} {text rest more : List Char}

/-- The longer text is cut off where the shorter one ends. -/
def Frame.longer {stop : Char} (isStop : stop ∈ [')', '\x7d', ']', '.']) {rest more : List Char}
    (noPeriod : (rest ++ more).head? ≠ some '.') : Frame where
  stop
  whole := rest ++ more
  part := rest
  isStop
  isPart := List.prefix_append _ _
  isTame _ isPeriod := absurd isPeriod noPeriod

theorem reads_of_more {α γ : Type} {parser : Parser α} {view : α → γ} {stop : Char}
    (isStop : stop ∈ [')', '\x7d', ']', '.'])
    (pieces : ∀ cursor, parser.Answers cursor fun _ next => Pieces cursor.rest (stop :: next.rest))
    (inStep : ∀ coupling : Coupling, coupling.StopsAt stop → ¬ coupling.Crosses →
      ∀ left right value next whole, coupling.Beside left.rest right.rest →
        parser.read right = .accept value next → coupling.Behind whole next.rest →
          InStep view coupling.Towards parser parser left right)
    {value : α} (accepted : parser.read ⟨offset, text ++ rest⟩ = .accept value ⟨last, rest⟩)
    (noBlock : ¬ ['%', '*'] <:+: text ++ rest) (noPeriod : (rest ++ more).head? ≠ some '.') :
    parser.Reads (text ++ (rest ++ more)) (rest ++ more) fun found => view value = view found := by
  intro start
  have isSplit := pieces _ _ _ accepted
  obtain ⟨before, isText⟩ := text_of_pieces isSplit
  have longer := isSplit.append noBlock (List.cons_ne_nil _ _) more
  have beside : (Coupling.cut (.longer isStop noPeriod)).Beside (text ++ (rest ++ more))
      (text ++ rest) := by
    refine ⟨before, by simp [isText, Frame.longer], by simp [isText, Frame.longer], ?_⟩
    simpa [Frame.longer] using longer
  have isInStep := inStep (.cut (.longer isStop noPeriod)) rfl (fun crosses => noPeriod crosses.2)
    ⟨start, text ++ (rest ++ more)⟩ _ _ _ (rest ++ more) beside accepted ⟨rfl, rfl⟩
  unfold InStep at isInStep
  rw [accepted] at isInStep
  generalize parser.read ⟨start, text ++ (rest ++ more)⟩ = outcome at isInStep ⊢
  cases isInStep with
  | @accept found _ next _ same towards =>
      obtain ⟨between, isNext, isRest⟩ := towards
      rw [show between = [] from List.self_eq_append_left.mp isRest] at isNext
      exact ⟨found, next.offset, congrArg (Outcome.accept found ⟨next.offset, ·⟩) isNext, same.symm⟩

theorem endsDirective_append_line (ends : endsDirective ('.' :: rest) = true) :
    endsDirective ('.' :: (rest ++ '\n' :: more)) = true := by
  cases rest with
  | nil => rfl
  | cons first rest => exact ends

/-- A statement is read whether the text goes on with another line or not. -/
theorem reads_statement_of_more {found : Statement}
    (accepted : statement.read ⟨offset, text ++ rest⟩ = .accept found ⟨last, rest⟩)
    (noBlock : ¬ ['%', '*'] <:+: text ++ rest) (noPeriod : rest.head? ≠ some '.')
    (more : List Char) :
    statement.Reads (text ++ (rest ++ '\n' :: more)) (rest ++ '\n' :: more) fun again =>
      found.erase = again.erase := by
  have stillNoPeriod : (rest ++ '\n' :: more).head? ≠ some '.' := by
    cases rest with
    | nil => exact fun isPeriod => nomatch isPeriod
    | cons first rest => exact noPeriod
  refine (reads_statement_again accepted ?_ ?_ ?_).imp fun _ same => same trivial
  · intro content last isRead
    exact (reads_directive_again isRead endsDirective_append_line).imp fun _ same _ => same
  · intro content last isRead
    refine (reads_of_more (by decide) answers_weakConstraint_pieces ?_ isRead noBlock
      stillNoPeriod).imp fun _ same _ => same
    intro coupling stops _ left right _ _ _ beside _ _
    exact (inStep_weakConstraint stops beside).imp fun _ _ => Coupling.Behind.towards
  · intro content last isRead
    refine (reads_of_more (by decide) answers_rule_pieces ?_ isRead noBlock stillNoPeriod).imp
      fun _ same _ => same
    intro coupling stops noCrossing left right value next whole beside isRead behind
    -- The head of the rule keeps its weight away from the period at the cut.
    obtain ⟨start, isText, character, member, isOther⟩ := answers_rule_start right value next isRead
    have isLonger := beside.text_of_copy stops behind isText
    exact inStep_rule noCrossing (beside.deep stops behind isLonger member isOther)

end More

end SoftRules.Grammar
