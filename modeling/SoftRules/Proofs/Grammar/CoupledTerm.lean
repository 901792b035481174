import SoftRules.Proofs.Grammar.Crossing
import SoftRules.Proofs.Grammar.Operator
import SoftRules.Proofs.Language.Erasure

/-!
Terms on coupled texts.

A term inside of brackets is in step with its copy. Elsewhere only an interval can lead across the
place where a text is cut off, and the interval is the weakest operator, so that the operands of all
operators are in step as well.
-/

set_option autoImplicit false

namespace SoftRules.Grammar

open SoftRules.Parser

variable {coupling : Coupling}

/-! Names and numbers. -/

theorem parallel_name {isFirst : Char → Bool}
    (refused : ['"', '%', '.', '(', ')', '\x7b', '\x7d', ']'].all (!isFirst ·) = true) :
    Parallel id coupling.Beside (name isFirst) (name isFirst) := by
  refine .bind (parallel_satisfy (coupling.unrolls (isPlain_of_ne refused)) _) ?_
  rintro first _ rfl
  refine .bind (parallel_takeWhile (coupling.unrolls (@isPlain_of_ne isNameCharacter
    (by decide)))) ?_
  rintro others _ rfl
  exact .pure rfl

theorem parallel_digits : Parallel id coupling.Beside digits digits :=
  parallel_takeWhile1 (coupling.unrolls (@isPlain_of_ne Char.isDigit (by decide))) _

theorem parallel_integer : Parallel id coupling.Beside integer integer := by
  refine .convert (.bind (parallel_plainChar (by decide)).optional fun sign sign' same => ?_)
  rw [Option.map_id] at same
  refine .bind parallel_digits ?_
  rintro digits _ rfl
  exact .pure (by rw [show sign = sign' from same]; rfl)

theorem parallel_variableName :
    Parallel Variable.erase coupling.Beside variableName variableName := by
  refine .located Variable.erase_relocate (.expecting _ (.bind (parallel_name (by decide)) ?_))
  rintro name _ rfl
  exact .pure rfl

/-! Terms in parentheses. -/

/-- What a list of arguments shows. -/
def viewArguments : List Term × Bool → List Term × Bool := Prod.map (List.map Term.erase) id

theorem view_fst {found found' : Option (List Term × Bool)}
    (same : found.map viewArguments = found'.map viewArguments) :
    (found.map Prod.fst).map (List.map Term.erase) =
      (found'.map Prod.fst).map (List.map Term.erase) := by
  have projected := congrArg (Option.map Prod.fst) same
  simpa [viewArguments, Function.comp_def] using projected

section Arguments

variable {term term' : Parser Term}
  (inside : ∀ inner : Coupling, ¬ inner.Crosses → Parallel Term.erase inner.Beside term term')

include inside

theorem parallel_arguments :
    Parallel viewArguments coupling.Beside (arguments term) (arguments term') := by
  intro left right beside
  have isPair : ('(', ')') ∈ [('(', ')'), ('\x7b', '\x7d')] := by decide
  refine inStep_brackets isPair beside fun inner stops outside next last nextBeside => ?_
  have terms := inside inner (stops.not_crosses (by decide))
  have comma : Parallel id inner.Beside (do space; char ',') (do space; char ',') :=
    .bind (parallel_space inner) fun _ _ _ => parallel_plainChar (by decide)
  refine .bind (parallel_space inner _ _ nextBeside) fun _ _ _ _ _ inFront => ?_
  refine .bind (Parallel.separated inner.keepsLag (parallel_spacedToken (by decide)) terms _ _
    inFront) fun found found' _ _ same behind => ?_
  refine .bind (comma.optional _ _ behind) fun last last' _ _ sameComma behindComma => ?_
  refine .bind (parallel_space inner _ _ behindComma) fun _ _ _ _ _ inFrontOfEnd => ?_
  refine .bind (inStep_closing (by decide) stops inFrontOfEnd) fun _ _ _ _ _ end_ => ?_
  rw [Option.map_id] at sameComma
  exact .pure (Prod.ext same (congrArg Option.isSome sameComma)) (outside _ _ end_)

theorem parallel_functionTerm :
    Parallel Term.erase coupling.Beside (functionTerm term) (functionTerm term') := by
  refine .located Term.erase_relocate (.bind (parallel_name (by decide)) ?_)
  rintro name _ rfl
  refine .bind (parallel_arguments inside).optional fun found found' same => .pure ?_
  have areSame := view_getD (view_fst same) []
  simp only [id_eq, Term.erase, Term.eraseAll_eq, areSame]

theorem parallel_tuple : Parallel Term.erase coupling.Beside (tuple term) (tuple term') := by
  refine .bind (parallel_arguments inside) ?_
  rintro ⟨terms, comma⟩ ⟨terms', comma'⟩ same
  obtain ⟨sameTerms, rfl⟩ := Prod.mk.inj same
  change terms.map Term.erase = terms'.map Term.erase at sameTerms
  have sameTuple : (Term.tuple terms).erase = (Term.tuple terms').erase := by
    simp only [Term.tuple, Term.erase, Term.eraseAll_eq, sameTerms]
  match terms, terms', comma, sameTerms with
  | [], [], _, _ => exact .pure rfl
  | [single], [single'], false, same => exact .pure (List.cons.inj same).1
  | [single], [single'], true, _ => exact .pure sameTuple
  | first :: second :: others, first' :: second' :: others', _, _ => exact .pure sameTuple
  | [_], _ :: _ :: _, _, same => exact absurd (congrArg List.length same) (by simp)
  | _ :: _ :: _, [_], _, same => exact absurd (congrArg List.length same) (by simp)

theorem parallel_primary : Parallel Term.erase coupling.Beside (primary term) (primary term') := by
  refine .located Term.erase_relocate (parallel_firstOf ?_)
  refine .cons (.bind parallel_variableName fun x x' same => .pure ?_) (.cons ?_ (.cons
    (parallel_functionTerm inside) (.cons (parallel_tuple inside) .nil)))
  · simp only [Term.erase, same]
  · refine .bind (parallel_quotedText coupling) ?_
    rintro value _ rfl
    exact .pure rfl

end Arguments

/-! Operators. -/

theorem Pieces.behind_interval {text rest : List Char} (pieces : Pieces ('.' :: '.' :: text) rest)
    (inside : rest.length ≤ text.length + 1) : Pieces text rest := by
  cases pieces with
  | nil => exact absurd inside (by simp)
  | plain isPlain _ => cases isPlain
  | point noInterval _ => exact absurd rfl noInterval
  | interval others => exact others

/-- At the place of the cut there is no interval, or the text goes on with one. -/
theorem Frame.interval (frame : Frame) :
    ¬ ['.', '.'] <+: frame.stop :: frame.whole ∧ ¬ ['.', '.'] <+: frame.stop :: frame.part ∨
      (Coupling.cut frame).Crosses ∧ frame.stop :: frame.part = ['.'] ∧
        ∃ rest, frame.stop :: frame.whole = '.' :: '.' :: rest ∧
          (Coupling.cut frame).Beyond rest := by
  by_cases crosses : frame.stop = '.' ∧ frame.whole.head? = some '.'
  · obtain ⟨rest, isWhole⟩ := List.head?_eq_some_iff.mp crosses.2
    refine .inr ⟨crosses, ?_, rest, ?_, ?_⟩
    · rw [crosses.1, frame.isTame crosses.1 crosses.2]
    · rw [crosses.1, isWhole]
    · simp [Coupling.Beyond, isWhole]
  · refine .inl ⟨?_, ?_⟩
    · rintro ⟨rest, shape⟩
      obtain ⟨isStop, isWhole⟩ := List.cons.inj shape
      exact crosses ⟨isStop.symm, by rw [← isWhole]; rfl⟩
    · rintro ⟨rest, shape⟩
      obtain ⟨isStop, isPart⟩ := List.cons.inj shape
      obtain ⟨behind, isWhole⟩ := frame.isPart
      exact crosses ⟨isStop.symm, by rw [← isWhole, ← isPart]; rfl⟩

/-- The operator of intervals is read on both sides or on none, or the cut is between its two
characters. -/
theorem Coupling.Beside.interval {text text' : List Char} (beside : coupling.Beside text text') :
    (∃ rest rest', text = '.' :: '.' :: rest ∧ text' = '.' :: '.' :: rest' ∧
      coupling.Beside rest rest') ∨ ¬ ['.', '.'] <+: text ∧ ¬ ['.', '.'] <+: text' ∨
    coupling.Crosses ∧ text' = ['.'] ∧ ∃ rest, text = '.' :: '.' :: rest ∧
      coupling.Beyond rest := by
  cases coupling with
  | same =>
      cases beside
      by_cases starts : ['.', '.'] <+: text
      · obtain ⟨rest, rfl⟩ := starts
        exact .inl ⟨rest, rest, rfl, rfl, rfl⟩
      · exact .inr (.inl ⟨starts, starts⟩)
  | cut frame =>
      obtain ⟨start, rfl, rfl, pieces⟩ := beside
      match start, pieces with
      | [], _ => exact .inr frame.interval
      | [first], pieces =>
          -- The period at the cut does not belong to the pieces in front of it.
          by_cases isInterval : first = '.' ∧ frame.stop = '.'
          · obtain ⟨rfl, isStop⟩ := isInterval
            rw [isStop] at pieces
            have tooLong := (pieces.behind_interval (by simp)).suffix.length_le
            exact absurd tooLong (by simp)
          · refine .inr (.inl ⟨?_, ?_⟩)
            · simpa [eq_comm] using isInterval
            · simpa [eq_comm] using isInterval
      | first :: second :: start, pieces =>
          by_cases isInterval : first = '.' ∧ second = '.'
          · obtain ⟨rfl, rfl⟩ := isInterval
            refine .inl ⟨_, _, rfl, rfl, start, rfl, rfl, pieces.behind_interval ?_⟩
            simp
            omega
          · refine .inr (.inl ⟨?_, ?_⟩)
            · simpa [eq_comm] using isInterval
            · simpa [eq_comm] using isInterval

/-- Any of the binary operators. -/
def binaryOperator : Parser Operator :=
  firstOf <| Operator.binary.map fun operator => do
    word operator.symbol.toList
    return operator

theorem infixOperator_eq : infixOperator = space >>= fun _ => binaryOperator := rfl

/-- The operator is one of an interval whose second period was cut off. -/
structure Overlooked (coupling : Coupling) (left right : Cursor) : Prop where
  crosses : coupling.Crosses
  reads : ∃ next, infixOperator.read left = .accept .interval next ∧ coupling.Beyond next.rest
  rejects : infixOperator.Rejects right.rest
  halted : Halted right.rest

theorem inStep_binaryOperator {left right : Cursor}
    (interval : InStep id coupling.Beside (word ['.', '.']) (word ['.', '.']) left right)
    (beside : coupling.Beside left.rest right.rest) :
    InStep id coupling.Beside binaryOperator binaryOperator left right := by
  have plain (operator : Operator) (isPlain : operator.symbol.toList.all isPlain = true) :
      InStep id coupling.Beside (do word operator.symbol.toList; return operator)
        (do word operator.symbol.toList; return operator) left right :=
    .bind (parallel_plainWord isPlain left right beside) fun _ _ _ _ _ behind => .pure rfl behind
  refine .firstOf (.cons ?_ (.cons (plain .power (by decide)) (.cons (plain .sum (by decide))
    (.cons (plain .difference (by decide)) (.cons (plain .product (by decide))
      (.cons (plain .quotient (by decide)) (.cons (plain .remainder (by decide)) .nil)))))))
  exact .bind interval fun _ _ _ _ _ behind => .pure rfl behind

theorem binaryOperator_coupled {next last : Cursor} (beside : coupling.Beside next.rest last.rest) :
    InStep id coupling.Beside binaryOperator binaryOperator next last ∨
      coupling.Crosses ∧ last.rest = ['.'] ∧ ∃ behind,
        binaryOperator.read next = .accept .interval behind ∧ coupling.Beyond behind.rest := by
  obtain ⟨start, text⟩ := next
  obtain ⟨start', text'⟩ := last
  obtain ⟨rest, rest', rfl, rfl, behind⟩ | ⟨refused, refused'⟩ |
    ⟨crosses, isLast, rest, rfl, beyond⟩ := Coupling.Beside.interval beside
  · exact .inl (inStep_binaryOperator (inStep_of_reads (.word ['.', '.'] rest)
      (.word ['.', '.'] rest') (fun _ _ _ _ => rfl) behind) beside)
  · exact .inl (inStep_binaryOperator (inStep_of_rejects (rejects_word refused)
      (rejects_word refused')) beside)
  · have interval : binaryOperator.Reads ('.' :: '.' :: rest) rest (· = .interval) :=
      .firstOf (.head (.bind (.word ['.', '.'] rest) fun _ _ => .pure rfl))
    obtain ⟨_, stop, accepted, rfl⟩ := interval start
    exact .inr ⟨crosses, isLast, ⟨stop, rest⟩, accepted, beyond⟩

theorem infixOperator_coupled (left right : Cursor)
    (beside : coupling.Beside left.rest right.rest) :
    InStep id coupling.Beside infixOperator infixOperator left right ∨
      Overlooked coupling left right := by
  have blanks := parallel_space coupling left right beside
  unfold InStep at blanks ⊢
  rw [infixOperator_eq, read_bind, read_bind]
  generalize read : space.read left = outcome at blanks
  generalize read' : space.read right = outcome' at blanks
  cases blanks with
  | reject => exact .inl .reject
  | abort => exact .inl .abort
  | @accept _ _ next last _ nextBeside =>
      obtain inStep | ⟨crosses, isLast, behind, accepted, beyond⟩ :=
        binaryOperator_coupled nextBeside
      · exact .inl inStep
      · have halted : Halted right.rest := by
          have reads := ((parallel_space .same).reads read').imp fun _ _ => trivial
          rwa [isLast] at reads
        refine .inr ⟨crosses, ⟨behind, ?_, beyond⟩, ?_, halted⟩
        · rw [infixOperator_eq, read_bind, read]
          exact accepted
        · refine halted.rejects_after_space (rejects_operators ?_ (by simp))
          rintro _ ⟨⟩
          rfl

/-! Operations. -/

/-- What a further operator and its right operand show. -/
def viewContinuation (found : Operator × Term × Nat) : Operator × Term :=
  (found.1, found.2.1.erase)

/-- The operations are in step, except for those that may be intervals. -/
structure ClimbsInStep (operation : Nat → Parser Term) : Prop where
  parallel : ∀ (coupling : Coupling) (strength : Nat), 0 < strength →
    Parallel Term.erase coupling.Beside (operation strength) (operation strength)
  closely : ∀ coupling : Coupling, Closely coupling Term.erase (operation 0) (operation 0)

theorem Operator.rightStrength_pos (operator : Operator) : 0 < operator.rightStrength := by
  cases operator <;> decide

section Operations

variable {operation : Nat → Parser Term} (inStep : ClimbsInStep operation)

include inStep

theorem parallel_operand :
    Parallel Term.erase coupling.Beside (operand operation) (operand operation) := by
  refine parallel_firstOf (.cons ?_ (.cons ?_ (.cons (parallel_primary ?_) .nil)))
  · refine .located Term.erase_relocate (.bind parallel_integer ?_)
    rintro value _ rfl
    exact .pure rfl
  · refine .located Term.erase_relocate (.bind (parallel_plainChar (by decide)) fun _ _ _ => ?_)
    refine .bind (parallel_space coupling) fun _ _ _ => ?_
    refine .bind (inStep.parallel coupling operandStrength (by decide)) fun term term' same => ?_
    refine .pure ?_
    simp only [Term.negate, Term.erase, Term.eraseAll, same]
  · intro inner noCrossing
    exact .expecting _ ((inStep.closely inner).parallel noCrossing)

/-- The operand behind an operator. -/
theorem inStep_continuation (strength : Nat) {left right : Cursor}
    (operator : InStep id coupling.Beside infixOperator infixOperator left right)
    (beside : coupling.Beside left.rest right.rest) :
    InStep (Option.map viewContinuation) coupling.Beside (continuation operation strength)
      (continuation operation strength) left right := by
  refine .bind (operator.optional beside) fun found found' next last same nextBeside => ?_
  rw [Option.map_id] at same
  cases (same : found = found')
  cases found with
  | none => exact .pure rfl nextBeside
  | some operator =>
      simp only
      split
      · exact .pure rfl nextBeside
      · have operands := inStep.parallel coupling _ (Operator.rightStrength_pos operator)
        refine .bind (parallel_space coupling _ _ nextBeside) fun _ _ _ _ _ inFront => ?_
        refine .bind (operands _ _ inFront) fun term term' _ _ sameTerm behind => ?_
        refine .bind (parallel_offset _ _ behind) fun _ _ _ _ _ stillBehind => ?_
        refine .pure ?_ stillBehind
        simp only [Option.map_some, viewContinuation, sameTerm]

omit inStep in
/-- Behind an interval whose second period was cut off, only the copy ends. -/
theorem Overlooked.roundMissed {left right : Cursor} (overlooked : Overlooked coupling left right) :
    RoundMissed coupling (continuation operation 0) (continuation operation 0) left right := by
  obtain ⟨next, accepted, beyond⟩ := overlooked.reads
  have found := read_optional_of_accept accepted
  have goesOn : (continuation operation 0).read left = (do
      space
      let right ← operation Operator.interval.rightStrength
      return some (.interval, right, ← offset) : Parser _).read next := by
    rw [continuation, read_bind, found]
    rfl
  have answers : (do
      space
      let right ← operation Operator.interval.rightStrength
      return some (.interval, right, ← offset) :
        Parser (Option (Operator × Term × Nat))).Answers next fun found _ => found ≠ none :=
    .after fun _ _ => .after fun _ _ => .offset (.pure (by simp))
  refine ⟨overlooked.crosses, ?_, ?_, ?_, overlooked.halted⟩
  · intro last isNone
    rw [goesOn] at isNone
    exact answers _ _ isNone rfl
  · intro value last isSome
    rw [goesOn] at isSome
    exact beyond.of_length_le (length_le_of_read isSome)
  · obtain ⟨error, rejected⟩ := overlooked.rejects right.offset
    refine ⟨right, ?_⟩
    rw [continuation, read_bind, read_optional_of_reject rejected]
    rfl

omit inStep in
/-- Among stronger operators, the interval ends the operation on both sides. -/
theorem Overlooked.roundInStep {left right : Cursor} (overlooked : Overlooked coupling left right)
    {strength : Nat} (positive : 0 < strength) :
    RoundInStep viewContinuation coupling.Beside ((continuation operation strength).read left)
      ((continuation operation strength).read right) := by
  obtain ⟨next, accepted, -⟩ := overlooked.reads
  have found := read_optional_of_accept accepted
  have weaker : Operator.interval.strength < strength := positive
  obtain ⟨error, rejected⟩ := overlooked.rejects right.offset
  rw [continuation, read_bind, read_bind, found, read_optional_of_reject rejected]
  simp only [weaker, if_true]
  exact .none

theorem parallel_continuations {strength : Nat} (positive : 0 < strength) :
    Parallel (List.map viewContinuation) coupling.Beside (rounds (continuation operation strength))
      (rounds (continuation operation strength)) := by
  refine parallel_rounds coupling.keepsLag fun left right beside => ?_
  obtain operator | overlooked := infixOperator_coupled left right beside
  · exact .of_inStep (inStep_continuation inStep strength operator beside)
  · exact overlooked.roundInStep positive

theorem closely_continuations :
    Closely coupling (List.map viewContinuation) (rounds (continuation operation 0))
      (rounds (continuation operation 0)) := by
  refine closely_rounds fun left right beside => ?_
  obtain operator | overlooked := infixOperator_coupled left right beside
  · exact .inl (.of_inStep (inStep_continuation inStep 0 operator beside))
  · exact .inr overlooked.roundMissed

omit inStep in
/-- An operation shows what its operands show. -/
theorem erase_operations {start start' : Nat} {first first' : Term}
    {others others' : List (Operator × Term × Nat)} (same : first.erase = first'.erase)
    (sameOthers : others.map viewContinuation = others'.map viewContinuation) :
    (others.foldl (fun left (operator, right, stop) =>
        .operation operator [left, right] (some ⟨start, stop⟩)) first).erase =
      (others'.foldl (fun left (operator, right, stop) =>
        .operation operator [left, right] (some ⟨start', stop⟩)) first').erase := by
  induction others generalizing others' first first' with
  | nil =>
      cases others' with
      | nil => exact same
      | cons _ _ => cases sameOthers
  | cons next others inductionHypothesis =>
      cases others' with
      | nil => cases sameOthers
      | cons next' others' =>
          obtain ⟨sameNext, sameRest⟩ := List.cons.inj sameOthers
          obtain ⟨operator, term, stop⟩ := next
          obtain ⟨operator', term', stop'⟩ := next'
          obtain ⟨rfl, sameTerm⟩ := Prod.mk.inj sameNext
          rw [List.foldl_cons, List.foldl_cons]
          refine inductionHypothesis ?_ sameRest
          simp only [Term.erase, Term.eraseAll, same, show term.erase = term'.erase from sameTerm]

theorem climbsInStep_step : ClimbsInStep (operationStep operation) where
  parallel := by
    intro coupling strength positive
    refine .bind parallel_offset fun start start' _ => ?_
    refine .bind (parallel_operand inStep) fun first first' same => ?_
    refine .bind (parallel_continuations inStep positive) fun others others' sameOthers => ?_
    exact .pure (erase_operations same sameOthers)
  closely := by
    intro coupling
    refine .after parallel_offset fun start start' _ => ?_
    refine .after (parallel_operand inStep) fun first first' same => ?_
    exact (closely_continuations inStep).map fun others others' sameOthers =>
      erase_operations same sameOthers

end Operations

theorem climbsInStep_iterate (text : List Char) :
    ClimbsInStep (fix.iterate operationStep text) := by
  induction text with
  | nil =>
      have nothing : ClimbsInStep fun _ => mismatch .progress :=
        ⟨fun _ _ _ => parallel_fail _, fun _ => Parallel.closely (parallel_fail _)⟩
      exact ⟨(climbsInStep_step nothing).parallel, (climbsInStep_step nothing).closely⟩
  | cons character text inductionHypothesis =>
      exact ⟨(climbsInStep_step inductionHypothesis).parallel,
        (climbsInStep_step inductionHypothesis).closely⟩

theorem closely_term : Closely coupling Term.erase term term := by
  refine .explain _ fun left right beside => ?_
  rw [operation, guarded_operationStep.read_fix (Nat.le_refl _),
    guarded_operationStep.read_fix beside.length_le]
  exact (climbsInStep_iterate left.rest).closely coupling left right beside

theorem parallel_term (noCrossing : ¬ coupling.Crosses) :
    Parallel Term.erase coupling.Beside term term :=
  closely_term.parallel noCrossing

end SoftRules.Grammar
