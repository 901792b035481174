import SoftRules.Proofs.Grammar.Spans
import SoftRules.Proofs.Parser.Lockstep

/-!
A text and a copy of it that was cut off, side by side.

The copy ends behind a bracket or a period that does not belong to the pieces in front of it.
Between that place and the start of both texts every production is in step on them: comments and
quoted texts end in front of it, and what was opened is closed there. The two texts may also be the
same one at different places.
-/

set_option autoImplicit false

namespace SoftRules.Grammar

open SoftRules.Parser

/-- Where a text is cut off: behind the character `stop` only a part of the rest is kept. Where
another period follows a period, nothing is kept. -/
structure Frame where
  stop : Char
  whole : List Char
  part : List Char
  isStop : stop ∈ [')', '\x7d', ']', '.']
  isPart : part <+: whole
  isTame : stop = '.' → whole.head? = some '.' → part = []

theorem Frame.stop_not_plain (frame : Frame) : isPlain frame.stop = false := by
  have plain : ∀ stop ∈ [')', '\x7d', ']', '.'], isPlain stop = false := by simp [isPlain]
  exact plain frame.stop frame.isStop

inductive Coupling where
  | same
  | cut (frame : Frame)

/-! Inversions of pieces. -/

namespace Pieces

variable {first : Char} {text rest : List Char}

theorem tail (pieces : Pieces (first :: text) rest) (inside : rest.length ≤ text.length)
    (plain : isPlain first = true) : Pieces text rest := by
  cases pieces with
  | nil => exact absurd inside (by simp)
  | plain _ others => exact others
  | _ => cases plain

/-- The content of a pair of brackets, and what stands behind it. -/
theorem content {opening closing : Char}
    (isPair : (opening, closing) ∈ [('(', ')'), ('\x7b', '\x7d')])
    (pieces : Pieces (opening :: text) rest) (inside : rest.length ≤ text.length) :
    ∃ behind, Pieces text (closing :: behind) ∧ Pieces behind rest := by
  simp only [List.mem_cons, Prod.mk.injEq, List.not_mem_nil, or_false] at isPair
  obtain ⟨rfl, rfl⟩ | ⟨rfl, rfl⟩ := isPair
  · cases pieces with
    | nil => exact absurd inside (by simp)
    | plain isPlain _ => cases isPlain
    | @parentheses _ behind _ content others => exact ⟨behind, content, others⟩
  · cases pieces with
    | nil => exact absurd inside (by simp)
    | plain isPlain _ => cases isPlain
    | @braces _ behind _ content others => exact ⟨behind, content, others⟩

/-- No piece starts with a closing bracket. -/
theorem not_closing (isClosing : first ∈ [')', '\x7d', ']'])
    (pieces : Pieces (first :: text) rest) : first :: text = rest := by
  have noPlain : ∀ stop ∈ [')', '\x7d', ']'], isPlain stop = false := by simp [isPlain]
  cases pieces with
  | nil => rfl
  | plain isPlain _ =>
      rw [noPlain first isClosing] at isPlain
      cases isPlain
  | _ => exact absurd isClosing (by decide)

theorem quotation (pieces : Pieces ('"' :: text) rest) (inside : rest.length ≤ text.length) :
    ∃ quotation behind value, text = quotation ++ behind ∧
      Steady quotedText ('"' :: quotation) behind (· = value) ∧ Pieces behind rest := by
  cases pieces with
  | nil => exact absurd inside (by simp)
  | plain isPlain _ => cases isPlain
  | quoted steady others => exact ⟨_, _, _, rfl, steady, others⟩

theorem remark (pieces : Pieces ('%' :: text) rest) (inside : rest.length ≤ text.length) :
    ∃ remark behind, text = remark ++ behind ∧
      Steady Grammar.comment ('%' :: remark) behind (fun _ => True) ∧ Pieces behind rest := by
  cases pieces with
  | nil => exact absurd inside (by simp)
  | plain isPlain _ => cases isPlain
  | comment steady others => exact ⟨_, _, rfl, steady, others⟩

end Pieces

namespace Coupling

/-- The texts in front of the place where the second one was cut off. -/
def Beside : Coupling → List Char → List Char → Prop
  | same, text, text' => text = text'
  | cut frame, text, text' => ∃ start, text = start ++ frame.stop :: frame.whole ∧
      text' = start ++ frame.stop :: frame.part ∧ Pieces text (frame.stop :: frame.whole)

/-- The texts behind that place. -/
def Behind : Coupling → List Char → List Char → Prop
  | same, text, text' => text = text'
  | cut frame, text, text' => text = frame.whole ∧ text' = frame.part

def StopsAt (coupling : Coupling) (character : Char) : Prop :=
  match coupling with
  | same => True
  | cut frame => frame.stop = character

variable {coupling : Coupling} {text text' : List Char}

theorem unrolls (coupling : Coupling) {accepts : Char → Bool}
    (arePlain : ∀ character, accepts character = true → isPlain character = true) :
    Unrolls coupling.Beside accepts := by
  cases coupling with
  | same => exact unrolls_eq accepts
  | cut frame =>
      rintro _ _ ⟨start, rfl, rfl, pieces⟩
      cases start with
      | nil =>
          refine .inr ⟨frame.stop, frame.whole, frame.part, rfl, rfl, fun accepted => ?_⟩
          have noPlain := frame.stop_not_plain
          rw [arePlain _ accepted] at noPlain
          cases noPlain
      | cons first start =>
          refine .inr ⟨first, _, _, rfl, rfl, fun accepted => ⟨start, rfl, rfl, ?_⟩⟩
          exact pieces.tail (by simp) (arePlain first accepted)

theorem keepsLag (coupling : Coupling) : KeepsLag coupling.Beside := by
  cases coupling with
  | same => exact keepsLag_eq
  | cut frame =>
      rintro _ _ _ _ ⟨start, rfl, rfl, -⟩ ⟨other, rfl, rfl, -⟩
      simp only [List.length_append, List.length_cons]
      omega

theorem keepsText (coupling : Coupling) : KeepsText coupling.Beside := by
  cases coupling with
  | same => exact keepsText_eq
  | cut frame =>
      rintro text text' _ _ ⟨start, isText, isText', -⟩ ⟨other, rfl, rfl, -⟩
      rw [← List.append_assoc] at isText isText'
      have sameStart := (List.append_cancel_right isText).trans
        (List.append_cancel_right isText').symm
      exact List.append_cancel_right sameStart

theorem Beside.length_le (beside : coupling.Beside text text') : text'.length ≤ text.length := by
  cases coupling with
  | same => exact Nat.le_of_eq (congrArg List.length beside).symm
  | cut frame =>
      obtain ⟨start, rfl, rfl, -⟩ := beside
      have shorter := frame.isPart.length_le
      simp only [List.length_append, List.length_cons]
      omega

/-- The texts start with the same character. -/
theorem Beside.head? (beside : coupling.Beside text text') : text.head? = text'.head? := by
  have noClass : ∀ character, false = true → isPlain character = true := nofun
  obtain ⟨rfl, rfl⟩ | ⟨_, _, _, rfl, rfl, _⟩ := coupling.unrolls noClass _ _ beside
  · rfl
  · rfl

/-- A character at which no text is cut off stands in front of the cut. -/
theorem Beside.inside {frame : Frame} {first : Char} (beside : (cut frame).Beside (first :: text) text')
    (noStop : first ∉ [')', '\x7d', ']', '.']) :
    Pieces (first :: text) (frame.stop :: frame.whole) ∧
      (frame.stop :: frame.whole).length ≤ text.length := by
  obtain ⟨start, isText, -, pieces⟩ := beside
  cases start with
  | nil =>
      rw [List.nil_append, List.cons.injEq] at isText
      rw [isText.1] at noStop
      exact absurd frame.isStop noStop
  | cons other start =>
      rw [List.cons_append, List.cons.injEq] at isText
      exact ⟨pieces, by simp [isText.2]⟩

/-- Inside of a pair of brackets, the closing one is where the texts are cut off. -/
theorem Beside.brackets {opening closing : Char}
    (isPair : (opening, closing) ∈ [('(', ')'), ('\x7b', '\x7d')])
    (beside : coupling.Beside (opening :: text) (opening :: text')) :
    ∃ inner : Coupling, inner.Beside text text' ∧ inner.StopsAt closing ∧
      ∀ rest rest', inner.Behind rest rest' → coupling.Beside rest rest' := by
  cases coupling with
  | same => exact ⟨same, (List.cons.inj beside).2, trivial, fun _ _ behind => behind⟩
  | cut frame =>
      have closes : ∀ pair ∈ [('(', ')'), ('\x7b', '\x7d')],
          pair.2 ∈ [')', '\x7d', ']', '.'] ∧ pair.2 ≠ '.' ∧
            pair.1 ∉ [')', '\x7d', ']', '.'] := by decide
      obtain ⟨isStop, noPeriod, noStop⟩ := closes _ isPair
      obtain ⟨pieces, inside⟩ := beside.inside noStop
      obtain ⟨behind, content, others⟩ := pieces.content isPair inside
      obtain ⟨middle, rfl⟩ := others.suffix
      obtain ⟨between, rfl⟩ := content.suffix
      obtain ⟨start, isText, isText', -⟩ := beside
      have sameText : opening :: (between ++ closing :: middle) ++ frame.stop :: frame.whole =
          start ++ frame.stop :: frame.whole := by
        rw [← isText]
        simp
      rw [← List.append_cancel_right sameText] at isText'
      let inner : Frame :=
        { stop := closing
          whole := middle ++ frame.stop :: frame.whole
          part := middle ++ frame.stop :: frame.part
          isStop := isStop
          isPart := (List.prefix_append_right_inj _).mpr
            (List.cons_prefix_cons.mpr ⟨rfl, frame.isPart⟩)
          isTame := fun isPeriod => absurd isPeriod noPeriod }
      refine ⟨cut inner, ⟨between, rfl, ?_, content⟩, rfl, ?_⟩
      · simpa [inner] using isText'
      · rintro _ _ ⟨rfl, rfl⟩
        exact ⟨middle, rfl, rfl, others⟩

/-- At a closing bracket, both texts are behind the cut or none is. -/
theorem Beside.closing {closing : Char} (isClosing : closing ∈ [')', '\x7d', ']'])
    (stops : coupling.StopsAt closing) (beside : coupling.Beside text text') :
    (∃ rest rest', text = closing :: rest ∧ text' = closing :: rest' ∧
      coupling.Behind rest rest') ∨ closing ∉ text.head? ∧ closing ∉ text'.head? := by
  cases coupling with
  | same =>
      cases beside
      cases text with
      | nil => exact .inr ⟨nofun, nofun⟩
      | cons first text =>
          by_cases isFirst : first = closing
          · exact .inl ⟨text, text, by rw [isFirst], by rw [isFirst], rfl⟩
          · exact .inr ⟨by simpa using isFirst, by simpa using isFirst⟩
  | cut frame =>
      cases stops
      obtain ⟨start, rfl, rfl, pieces⟩ := beside
      cases start with
      | nil => exact .inl ⟨_, _, rfl, rfl, rfl, rfl⟩
      | cons first start =>
          have other : first ≠ frame.stop := by
            rintro rfl
            have sameLength := congrArg List.length (pieces.not_closing isClosing)
            simp at sameLength
            omega
          exact .inr ⟨by simpa using other, by simpa using other⟩

/-- A lexeme that ends in front of the cut is read on both sides. -/
theorem Beside.steady {α : Type} {parser : Parser α} {good : α → Prop} {frame : Frame}
    {lexeme behind : List Char} (steady : Steady parser lexeme behind good)
    (others : Pieces behind (frame.stop :: frame.whole))
    (beside : (cut frame).Beside (lexeme ++ behind) text') :
    ∃ behind', text' = lexeme ++ behind' ∧ (cut frame).Beside behind behind' ∧
      parser.Reads (lexeme ++ behind) behind good ∧
        parser.Reads (lexeme ++ behind') behind' good := by
  obtain ⟨start, isText, rfl, -⟩ := beside
  obtain ⟨middle, rfl⟩ := others.suffix
  rw [← List.append_assoc] at isText
  have isStart := (List.append_cancel_right isText).symm
  refine ⟨middle ++ frame.stop :: frame.part, by simp [isStart], ⟨middle, rfl, rfl, others⟩,
    steady _ (List.prefix_refl _), steady _ ?_⟩
  exact (List.prefix_append_right_inj _).mpr (List.cons_prefix_cons.mpr ⟨rfl, frame.isPart⟩)

end Coupling

/-! Lexemes. -/

theorem parallel_blockComment : Parallel id Eq blockComment blockComment :=
  .bind (parallel_word (unrolls_eq _)) fun _ _ _ => .bind (parallel_takeUntil _ _) fun _ _ _ =>
    parallel_word (unrolls_eq _)

theorem parallel_lineComment : Parallel id Eq lineComment lineComment :=
  .bind (parallel_word (unrolls_eq _)) fun _ _ _ =>
    .bind (parallel_takeWhile1 (unrolls_eq _) _) fun _ _ _ => .pure rfl

theorem parallel_textPart : Parallel id Eq textPart textPart := by
  refine parallel_firstOf (.cons (parallel_takeWhile1 (unrolls_eq _) _) (.cons ?_ .nil))
  refine .bind (parallel_char (unrolls_eq _)) fun _ _ _ => ?_
  refine .bind (parallel_satisfy (unrolls_eq _) _) ?_
  rintro letter _ rfl
  exact .pure rfl

variable (coupling : Coupling)

/-- A lexeme with a first character of its own, which the pieces of a text respect. -/
theorem parallel_lexeme {α : Type} {parser : Parser α} {opening : Char}
    (noStop : opening ∉ [')', '\x7d', ']', '.']) (whenSame : Parallel id Eq parser parser)
    (rejects : ∀ text, opening ∉ text.head? → parser.Rejects text)
    (steady : ∀ text rest, Pieces (opening :: text) rest → rest.length ≤ text.length →
      ∃ lexeme behind value, text = lexeme ++ behind ∧
        Steady parser (opening :: lexeme) behind (· = value) ∧ Pieces behind rest) :
    Parallel id coupling.Beside parser parser := by
  cases coupling with
  | same => exact whenSame
  | cut frame =>
      rintro ⟨start, text⟩ ⟨start', text'⟩ (beside : (Coupling.cut frame).Beside text text')
      by_cases opens : opening ∈ text.head?
      · obtain ⟨others, rfl⟩ := List.head?_eq_some_iff.mp opens
        obtain ⟨pieces, inside⟩ := beside.inside noStop
        obtain ⟨lexeme, behind, value, rfl, isSteady, rest⟩ := steady _ _ pieces inside
        obtain ⟨behind', rfl, nextBeside, reads, alsoReads⟩ :=
          Coupling.Beside.steady isSteady rest beside
        exact inStep_of_reads reads alsoReads (fun _ _ same same' => same.trans same'.symm)
          nextBeside
      · exact inStep_of_rejects (rejects text opens) (rejects text' (beside.head? ▸ opens))

theorem rejects_comment {text : List Char} (refused : '%' ∉ text.head?) : comment.Rejects text := by
  have noWord (rest : List Char) : ¬ '%' :: rest <+: text := by
    rintro ⟨others, rfl⟩
    exact refused rfl
  exact rejects_firstOf (.cons (.bind (rejects_word (noWord _)))
    (.cons (.bind (rejects_word (noWord _))) (.cons (rejects_word (noWord _)) .nil)))

theorem parallel_comment : Parallel id coupling.Beside comment comment := by
  refine parallel_lexeme coupling (by decide) ?_ (fun _ refused => rejects_comment refused) ?_
  · exact parallel_firstOf (.cons parallel_blockComment (.cons parallel_lineComment
      (.cons (parallel_word (unrolls_eq _)) .nil)))
  · intro text rest pieces inside
    obtain ⟨remark, behind, isText, steady, others⟩ := pieces.remark inside
    refine ⟨remark, behind, (), isText, ?_, others⟩
    exact fun part isPart => (steady part isPart).imp fun _ _ => rfl

theorem parallel_quotedText : Parallel id coupling.Beside quotedText quotedText := by
  refine parallel_lexeme coupling (by decide) ?_ (fun _ refused => rejects_quotedText refused) ?_
  · refine .expecting _ (.bind (parallel_char (unrolls_eq _)) fun _ _ _ => ?_)
    refine .bind (parallel_textPart.many keepsLag_eq) fun parts parts' same => ?_
    refine .bind (parallel_char (unrolls_eq _)) fun _ _ _ => .pure ?_
    rw [List.map_id, List.map_id] at same
    rw [same]
  · intro text rest pieces inside
    obtain ⟨quotation, behind, value, isText, steady, others⟩ := pieces.quotation inside
    exact ⟨quotation, behind, value, isText, steady, others⟩

/-! Characters and tokens. -/

section Tokens

variable {coupling}

theorem parallel_plainChar {character : Char} (plain : isPlain character = true) :
    Parallel id coupling.Beside (char character) (char character) := by
  refine parallel_char (coupling.unrolls ?_)
  intro other isOther
  rw [beq_iff_eq.mp isOther]
  exact plain

theorem parallel_plainWord {expected : List Char} (plain : expected.all isPlain = true) :
    Parallel id coupling.Beside (word expected) (word expected) := by
  refine parallel_word (coupling.unrolls ?_)
  intro character member
  exact List.all_eq_true.mp plain character (by simpa using member)

variable (coupling)

theorem parallel_spaceItem : Parallel id coupling.Beside spaceItem spaceItem := by
  have blanks := parallel_takeWhile1
    (coupling.unrolls (@isPlain_of_ne isSpace (by decide))) .spaces
  exact parallel_firstOf (.cons (.bind blanks fun _ _ _ => .pure rfl)
    (.cons (parallel_comment coupling) .nil))

theorem parallel_space : Parallel id coupling.Beside space space :=
  .bind ((parallel_spaceItem coupling).many coupling.keepsLag) fun _ _ _ => .pure rfl

theorem parallel_space1 : Parallel id coupling.Beside space1 space1 := by
  have items := parallel_spaceItem coupling
  refine .bind (?_ : Parallel (fun _ => ()) _ (many1 spaceItem) (many1 spaceItem))
    fun _ _ _ => .pure rfl
  exact .bind (items.explain _) fun _ _ _ => .bind (items.many coupling.keepsLag) fun _ _ _ =>
    .pure rfl

variable {coupling}

theorem parallel_token {spelling : String} (plain : spelling.toList.all isPlain = true) :
    Parallel id coupling.Beside (token spelling) (token spelling) :=
  .expecting _ (parallel_plainWord plain)

theorem parallel_spacedToken {spelling : String} (plain : spelling.toList.all isPlain = true) :
    Parallel id coupling.Beside (spacedToken spelling) (spacedToken spelling) :=
  .expecting _ (.bind (parallel_space coupling) fun _ _ _ => .bind (parallel_plainWord plain)
    fun _ _ _ => parallel_space coupling)

end Tokens

/-! Brackets. -/

section Brackets

variable {coupling} {α γ : Type} {view : α → γ} {Beside : List Char → List Char → Prop}

/-- The opening bracket leads both sides to a coupling of its own. -/
theorem inStep_brackets {opening closing : Char}
    (isPair : (opening, closing) ∈ [('(', ')'), ('\x7b', '\x7d')])
    {further further' : Unit → Parser α} {left right : Cursor}
    (beside : coupling.Beside left.rest right.rest)
    (content : ∀ inner : Coupling, inner.StopsAt closing →
      (∀ rest rest', inner.Behind rest rest' → coupling.Beside rest rest') →
      ∀ next last, inner.Beside next.rest last.rest →
        InStep view Beside (further ()) (further' ()) next last) :
    InStep view Beside (char opening >>= further) (char opening >>= further') left right := by
  obtain ⟨start, text⟩ := left
  obtain ⟨start', text'⟩ := right
  change coupling.Beside text text' at beside
  by_cases opens : opening ∈ text.head?
  · obtain ⟨others, rfl⟩ := List.head?_eq_some_iff.mp opens
    obtain ⟨others', rfl⟩ := List.head?_eq_some_iff.mp (beside.head? ▸ opens)
    obtain ⟨inner, inside, stops, outside⟩ := beside.brackets isPair
    have opened : InStep id inner.Beside (char opening) (char opening) ⟨start, opening :: others⟩
        ⟨start', opening :: others'⟩ :=
      inStep_of_reads (.char _ _) (.char _ _) (fun _ _ _ _ => rfl) inside
    refine .bind opened fun _ _ next last _ nextBeside => ?_
    exact content inner stops outside next last nextBeside
  · exact inStep_of_rejects (.bind (rejects_char opens))
      (.bind (rejects_char (beside.head? ▸ opens)))

theorem inStep_closing {closing : Char} (isClosing : closing ∈ [')', '\x7d', ']'])
    (stops : coupling.StopsAt closing) {left right : Cursor}
    (beside : coupling.Beside left.rest right.rest) :
    InStep id coupling.Behind (char closing) (char closing) left right := by
  obtain ⟨start, text⟩ := left
  obtain ⟨start', text'⟩ := right
  obtain ⟨rest, rest', rfl, rfl, behind⟩ | ⟨refused, refused'⟩ :=
    Coupling.Beside.closing isClosing stops beside
  · exact inStep_of_reads (.char _ _) (.char _ _) (fun _ _ _ _ => rfl) behind
  · exact inStep_of_rejects (rejects_char refused) (rejects_char refused')

theorem parallel_braced {content content' : Parser α}
    (inside : ∀ inner : Coupling, inner.StopsAt '\x7d' →
      Parallel view inner.Beside content content') :
    Parallel view coupling.Beside (braced content) (braced content') := by
  intro left right beside
  have isPair : ('\x7b', '\x7d') ∈ [('(', ')'), ('\x7b', '\x7d')] := by decide
  refine inStep_brackets isPair beside ?_
  intro inner stops outside next last nextBeside
  refine .bind (parallel_space inner next last nextBeside) fun _ _ _ _ _ afterSpace => ?_
  refine .bind (inside inner stops _ _ afterSpace) fun value value' _ _ same afterContent => ?_
  refine .bind (parallel_space inner _ _ afterContent) fun _ _ _ _ _ inFront => ?_
  refine .bind (inStep_closing (by decide) stops inFront) fun _ _ _ _ _ behind => ?_
  exact .pure same (outside _ _ behind)

end Brackets

end SoftRules.Grammar
