import SoftRules.Proofs.Grammar.Equations

/-!
The parser terminates.

The productions are ranked. What a production makes of a text depends on other productions only
through calls that descend: they are made behind what has been read already, or at the same place
to productions of lower rank. So there is no left recursion, and calls are nested no deeper than
the length of the text and the number of ranks allow. Programs and statements are read in the same
way if the equations are unfolded so often, whatever stands below them.
-/

set_option autoImplicit false

namespace SoftRules.Grammar

open SoftRules.Parser

/-- Productions of higher rank may call those of lower rank at the place where they start. -/
def Production.rank : {α : Type} → Production α → Nat
  | _, .functionTerm => 1
  | _, .tuple => 1
  | _, .primary => 2
  | _, .operand => 3
  | _, .operation _ => 4
  | _, .term => 5
  | _, .comparison => 6
  | _, .predicate => 6
  | _, .leftGuard => 6
  | _, .rightGuard => 6
  | _, .element => 6
  | _, .aggregate => 7
  | _, .bodyAggregate => 7
  | _, .atom => 8
  | _, .literal => 9
  | _, .conditional => 10
  | _, .head => 10
  | _, .bodyElement => 11
  | _, .body => 12
  | _, .rule => 13
  | _, .statement => 14
  | _, _ => 0

/-- Loops stand above all productions. -/
def loopRank : Nat := 15

/-- The number of ranks. -/
def height : Nat := 16

theorem Production.rank_lt_loopRank {α : Type} (production : Production α) :
    production.rank < loopRank := by
  unfold rank loopRank
  split <;> decide

/-- The second call is made at a later place, or at the same place with a lower rank. -/
def Descends (cursor : Cursor) (rank : Nat) (next : Cursor) (lower : Nat) : Prop :=
  next.rest.length < cursor.rest.length ∨
    next.rest.length = cursor.rest.length ∧ lower < rank

/-- The family answers like the parsers that run wherever a call from the given place and rank
descends. -/
structure Family.AgreesBelow (family : Family) (cursor : Cursor) (rank : Nat) : Prop where
  production {α : Type} (called : Production α) (next : Cursor)
    (descends : Descends cursor rank next called.rank) :
    (family called).read next = called.parser.read next
  loop {α : Type} (called : Loop α) (next : Cursor)
    (descends : Descends cursor rank next loopRank) :
    (family.loop called).read next = called.parser.read next

/-- The family keeps pace with the parsers that run: on shorter texts and, below the rank, also on
texts of the length itself. -/
structure Family.KeepsPace (family : Family) (length rank : Nat) : Prop where
  later {α : Type} (called : Production α) : KeepPace length called.parser (family called)
  loop {α : Type} (called : Loop α) : KeepPace length called.parser (family.loop called)
  lower {α : Type} (called : Production α) (isLower : called.rank < rank) :
    KeepPace (length + 1) called.parser (family called)

/-! Characters, blanks and tokens. -/

section Tokens

variable {bound : Nat}

theorem keepPace_comment : KeepPace bound comment comment := by
  refine AllKeepPace.firstOf (.cons ?_ (.cons ?_ (.cons (keepPace_word _) .nil)))
  · exact .bind (keepPace_word _) fun _ => .bind (keepPace_takeUntil _ (by decide)) fun _ =>
      keepPace_word _
  · exact .bind (keepPace_word _) fun _ => .bind (keepPace_takeWhile1 _ (by decide)) fun _ =>
      keepPace_pure _

theorem keepPace_spaceItem : KeepPace bound spaceItem spaceItem :=
  AllKeepPace.firstOf (.cons (.bind (keepPace_takeWhile1 _ (by decide)) fun _ => keepPace_pure _)
    (.cons keepPace_comment .nil))

theorem keepPace_spaces : KeepPace bound (many spaceItem) (many spaceItem) :=
  .rounds (fun _ => keepPace_spaceItem.optional) (.optional consumes_spaceItem) bound

theorem keepPace_space : KeepPace bound space space :=
  .bind keepPace_spaces fun _ => keepPace_pure _

theorem keepPace_space1 : KeepPace bound space1 space1 :=
  .bind (.bind (keepPace_spaceItem.explain (by decide)) fun _ => .bind keepPace_spaces fun _ =>
    keepPace_pure _) fun _ => keepPace_pure _

theorem keepPace_token (spelling : String) : KeepPace bound (token spelling) (token spelling) :=
  (keepPace_word _).expecting _

theorem keepPace_spacedToken (spelling : String) :
    KeepPace bound (spacedToken spelling) (spacedToken spelling) :=
  .expecting (.bind keepPace_space fun _ => .bind (keepPace_word _) fun _ => keepPace_space) _

theorem keepPace_name (isFirst : Char → Bool) : KeepPace bound (name isFirst) (name isFirst) :=
  .bind (keepPace_satisfy _ (by decide)) fun _ => .bind (keepPace_takeWhile _) fun _ =>
    keepPace_pure _

theorem keepPace_digits : KeepPace bound digits digits := keepPace_takeWhile1 _ (by decide)

theorem keepPace_integer : KeepPace bound integer integer := by
  refine .convert (.bind (keepPace_char _).optional fun _ => .bind keepPace_digits fun _ =>
    keepPace_pure _) ?_
  rintro ⟨negative, digits⟩ failed
  simp only at failed
  generalize (if negative = true then -(Number.ofDigits digits : Int) else Number.ofDigits digits) =
    value at failed
  split at failed
  · cases failed
  · split at failed <;> cases failed

theorem keepPace_infixOperator : KeepPace bound infixOperator infixOperator :=
  .bind keepPace_space fun _ => (AllKeepPace.map (fun _ => .bind (keepPace_word _) fun _ =>
    keepPace_pure _) _).firstOf

theorem keepPace_relation : KeepPace bound relation relation :=
  .expecting (AllKeepPace.map (fun _ => .bind (keepPace_word _) fun _ => keepPace_pure _) _).firstOf
    _

theorem keepPace_boolean : KeepPace bound boolean boolean :=
  .located (AllKeepPace.firstOf (.cons (.bind (keepPace_word _) fun _ => keepPace_pure _)
    (.cons (.bind (keepPace_word _) fun _ => keepPace_pure _) .nil)))

theorem keepPace_aggregateFunction : KeepPace bound aggregateFunction aggregateFunction := by
  refine .convert (.consumed (.bind (keepPace_char _) fun _ =>
    .bind (keepPace_takeWhile1 _ (by decide)) fun _ =>
      .bind (keepPace_char _).optional fun _ => keepPace_pure _)) ?_
  intro name failed
  split at failed <;> cases failed

theorem keepPace_negation : KeepPace bound negation negation :=
  .bind (keepPace_word _) fun _ => keepPace_space1

theorem keepPace_oneOf (choices : List Char) : KeepPace bound (oneOf choices) (oneOf choices) :=
  keepPace_satisfy _ (by decide)

theorem keepPace_weightNumber : KeepPace bound weightNumber weightNumber := by
  have fraction : KeepPace bound (do char '.'; digits) (do char '.'; digits) :=
    .bind (keepPace_char _) fun _ => keepPace_digits
  refine .consumed (.bind (keepPace_char _).optional fun _ => .bind keepPace_digits fun _ =>
    .bind fraction.optional fun _ => .bind (.optional ?_) fun _ => keepPace_pure _)
  exact .bind (keepPace_oneOf _) fun _ => .bind (keepPace_oneOf _).optional fun _ =>
    keepPace_digits

theorem keepPace_weight : KeepPace bound weight weight :=
  .expecting (.bind (.located (.bind keepPace_weightNumber fun _ => keepPace_pure _)) fun _ =>
    .bind keepPace_space fun _ => .bind (keepPace_char _) fun _ =>
      .bind (keepPace_oneOf _).refuse fun _ => keepPace_pure _) _

theorem keepPace_directive : KeepPace bound directive directive := by
  have isName : KeepPace bound directiveName directiveName := by
    refine .convert (keepPace_takeWhile1 _ (by decide)) ?_
    intro name failed
    split at failed <;> cases failed
  have text := KeepPace.consumed (.bind (keepPace_char '#') fun _ => .bind isName fun _ =>
    keepPace_takeUntil endsDirective (by decide : ParseError.Cause.expected (.token ".") ≠ _))
  exact .located (.expecting (.bind text fun _ => .bind (keepPace_token _) fun _ =>
    keepPace_pure _) _)

theorem keepPace_braced {α : Type} {content other : Parser α}
    (pace : KeepPace bound content other) :
    KeepPace (bound + 1) (braced content) (braced other) :=
  .guard (keepPace_char _) (consumes_char _) fun _ => .bind keepPace_space fun _ =>
    .bind pace fun _ => .bind keepPace_space fun _ => .bind (keepPace_char _) fun _ =>
      keepPace_pure _

end Tokens

/-! Parts of productions. -/

section Parts

variable {family : Family} {length rank : Nat} (paces : family.KeepsPace length rank)

include paces

theorem keepPace_laterList {α : Type} (item : Production α) (further : Loop α) :
    KeepPace length (nonemptyList parsers item further) (nonemptyList family item further) :=
  .bind (paces.later item) fun _ => .bind (paces.loop further) fun _ => keepPace_pure _

/-- The loop starts behind the first item. -/
theorem keepPace_nonemptyList {α : Type} (item : Production α) (further : Loop α)
    (isLower : item.rank < rank) :
    KeepPace (length + 1) (nonemptyList parsers item further)
      (nonemptyList family item further) :=
  .guard (paces.lower item isLower) item.consumes fun _ => .bind (paces.loop further) fun _ =>
    keepPace_pure _

theorem keepPace_possibleList {α : Type} (item : Production α) (further : Loop α) :
    KeepPace length (possibleList parsers item further) (possibleList family item further) :=
  .bind (keepPace_laterList paces item further).optional fun _ => keepPace_pure _

theorem keepPace_possibleCondition :
    KeepPace (length + 1) (possibleCondition parsers) (possibleCondition family) :=
  .bind (.optional (.guard (keepPace_spacedToken _) (consumes_spacedToken (by decide)) fun _ =>
    keepPace_laterList paces .literal .literals)) fun _ => keepPace_pure _

theorem keepPace_possibleLeftGuard (isLower : Production.rank .leftGuard < rank) :
    KeepPace (length + 1) (possibleLeftGuard parsers) (possibleLeftGuard family) :=
  .optional (.bind (paces.lower .leftGuard isLower) fun _ => .bind keepPace_space fun _ =>
    keepPace_pure _)

theorem keepPace_possibleRightGuard (isLower : Production.rank .rightGuard < rank) :
    KeepPace (length + 1) (possibleRightGuard parsers) (possibleRightGuard family) :=
  .optional (.bind keepPace_space fun _ => paces.lower .rightGuard isLower)

theorem keepPace_possibleSign (isLower : 0 < rank) :
    KeepPace (length + 1) (possibleSign parsers) (possibleSign family) := by
  have word := paces.lower .negation isLower
  refine AllKeepPace.firstOf (.cons ?_ (.cons ?_ (.cons (keepPace_pure _) .nil)))
  · exact .bind word fun _ => .bind word fun _ => keepPace_pure _
  · exact .bind word fun _ => keepPace_pure _

theorem keepPace_sides (isLower : Production.rank .head < rank) :
    KeepPace (length + 1) (sides parsers) (sides family) := by
  have body := (paces.later .body).commit
  refine AllKeepPace.firstOf (.cons ?_ (.cons ?_ .nil))
  · exact .guard (keepPace_token _) (consumes_token (by decide)) fun _ =>
      .bind keepPace_space fun _ => .bind body fun _ => keepPace_pure _
  · refine .bind (paces.lower .head isLower) fun _ => .bind (.optional ?_) fun _ => keepPace_pure _
    exact .guard (keepPace_spacedToken _) (consumes_spacedToken (by decide)) fun _ => body

end Parts

/-! Productions. -/

/-- The production keeps pace with any family that does so below it. -/
def Production.IsPaced {α : Type} (production : Production α) : Prop :=
  ∀ (family : Family) (length : Nat), family.KeepsPace length production.rank →
    KeepPace (length + 1) (production.equation parsers) (production.equation family)

theorem isPaced_quotedText : Production.quotedText.IsPaced := by
  intro family length paces
  exact .expecting (.guard (keepPace_char _) (consumes_char _) fun _ =>
    .bind (paces.loop .textParts) fun _ => .bind (keepPace_char _) fun _ => keepPace_pure _) _

theorem isPaced_arguments : Production.arguments.IsPaced := by
  intro family length paces
  refine .guard (keepPace_char _) (consumes_char _) fun _ => .bind keepPace_space fun _ =>
    .bind (keepPace_possibleList paces .term .terms) fun _ => ?_
  exact .bind (.optional (.bind keepPace_space fun _ => keepPace_char _)) fun _ =>
    .bind keepPace_space fun _ => .bind (keepPace_char _) fun _ => keepPace_pure _

theorem isPaced_functionTerm : Production.functionTerm.IsPaced := by
  intro family length paces
  exact .located (.guard (paces.lower .lowercaseName (by decide)) (consumes_name _) fun _ =>
    .bind (paces.later .arguments).optional fun _ => keepPace_pure _)

theorem isPaced_tuple : Production.tuple.IsPaced := by
  intro family length paces
  refine .bind (paces.lower .arguments (by decide)) fun found => ?_
  split <;> exact keepPace_pure _

theorem isPaced_primary : Production.primary.IsPaced := by
  intro family length paces
  exact .located (AllKeepPace.firstOf
    (.cons (.bind (paces.lower .variableName (by decide)) fun _ => keepPace_pure _)
    (.cons (.bind (paces.lower .quotedText (by decide)) fun _ => keepPace_pure _)
    (.cons (paces.lower .functionTerm (by decide))
    (.cons (paces.lower .tuple (by decide)) .nil)))))

theorem isPaced_operand : Production.operand.IsPaced := by
  intro family length paces
  refine AllKeepPace.firstOf (.cons ?_ (.cons ?_ (.cons (paces.lower .primary (by decide)) .nil)))
  · exact .located (.bind (paces.lower .integer (by decide)) fun _ => keepPace_pure _)
  · -- What is negated starts behind the minus, so it may be any operation.
    exact .located (.guard (keepPace_char _) (consumes_char _) fun _ =>
      .bind keepPace_space fun _ => .bind (paces.later (.operation operandStrength)) fun _ =>
        keepPace_pure _)

theorem isPaced_operation (strength : Nat) : (Production.operation strength).IsPaced := by
  intro family length paces
  exact .bind keepPace_offset fun _ =>
    .guard (paces.lower .operand (by simp [Production.rank])) (consumes_operand _) fun _ =>
      .bind (paces.loop (.operators strength)) fun _ => keepPace_pure _

theorem isPaced_comparison : Production.comparison.IsPaced := by
  intro family length paces
  have term := paces.lower .term (by decide)
  exact .located (.bind term fun _ => .bind keepPace_space fun _ =>
    .bind (paces.lower .relation (by decide)) fun _ => .bind keepPace_space fun _ =>
      .bind term fun _ => keepPace_pure _)

theorem isPaced_predicate : Production.predicate.IsPaced := by
  intro family length paces
  exact .located (.bind (.optional (.bind (keepPace_char _) fun _ => keepPace_space)) fun _ =>
    .bind (paces.lower .functionTerm (by decide)) fun _ => keepPace_pure _)

theorem isPaced_leftGuard : Production.leftGuard.IsPaced := by
  intro family length paces
  have relation := paces.lower .relation (by decide)
  exact .bind (paces.lower .term (by decide)) fun _ =>
    .bind (.optional (.bind keepPace_space fun _ => relation)) fun _ => keepPace_pure _

theorem isPaced_rightGuard : Production.rightGuard.IsPaced := by
  intro family length paces
  have relation := paces.lower .relation (by decide)
  exact .bind (.optional (.bind relation fun _ => .bind keepPace_space fun _ =>
    keepPace_pure _)) fun _ => .bind (paces.lower .term (by decide)) fun _ => keepPace_pure _

theorem isPaced_aggregate : Production.aggregate.IsPaced := by
  intro family length paces
  -- Literals are only read inside of the braces, which is what breaks the circle.
  have elements := keepPace_braced (keepPace_possibleList paces .conditional .conditionals)
  exact .located (.bind (keepPace_possibleLeftGuard paces (by decide)) fun _ =>
    .bind elements fun _ => .bind (keepPace_possibleRightGuard paces (by decide)) fun _ =>
      keepPace_pure _)

theorem isPaced_bodyAggregate : Production.bodyAggregate.IsPaced := by
  intro family length paces
  have elements := keepPace_braced (keepPace_possibleList paces .element .elements)
  exact .located (.bind (keepPace_possibleLeftGuard paces (by decide)) fun _ =>
    .bind (paces.lower .aggregateFunction (by decide)) fun _ => .bind keepPace_space fun _ =>
      .bind elements fun _ => .bind (keepPace_possibleRightGuard paces (by decide)) fun _ =>
        keepPace_pure _)

theorem isPaced_atom : Production.atom.IsPaced := by
  intro family length paces
  exact .expecting (AllKeepPace.firstOf
    (.cons (paces.lower .boolean (by decide))
    (.cons (.bind (paces.lower .aggregate (by decide)) fun _ => keepPace_pure _)
    (.cons (.bind (paces.lower .bodyAggregate (by decide)) fun _ => keepPace_pure _)
    (.cons (paces.lower .comparison (by decide))
    (.cons (paces.lower .predicate (by decide)) .nil)))))) _

theorem isPaced_literal : Production.literal.IsPaced := by
  intro family length paces
  exact .located (.expecting (.bind (keepPace_possibleSign paces (by decide)) fun _ =>
    .bind (paces.lower .atom (by decide)) fun _ => keepPace_pure _) _)

theorem isPaced_conditional : Production.conditional.IsPaced := by
  intro family length paces
  exact .located (.bind (paces.lower .literal (by decide)) fun _ =>
    .bind (keepPace_possibleCondition paces) fun _ => keepPace_pure _)

theorem isPaced_element : Production.element.IsPaced := by
  intro family length paces
  exact .bind (keepPace_nonemptyList paces .term .terms (by decide)) fun _ =>
    .bind (keepPace_possibleCondition paces) fun _ => keepPace_pure _

theorem isPaced_theoryAtom : Production.theoryAtom.IsPaced := by
  intro family length paces
  have elements := (keepPace_braced (keepPace_possibleList paces .element .elements)).below
  refine .located (.expecting (.guard (keepPace_char _) (consumes_char _) fun _ =>
    .bind (paces.later .lowercaseName) fun _ => .bind (paces.later .arguments).optional fun _ =>
      .bind (.optional (.bind keepPace_space fun _ => elements)) fun _ =>
        .bind (.optional ?_) fun _ => keepPace_pure _) _)
  exact .bind keepPace_space fun _ => .bind (paces.later .relation) fun _ =>
    .bind keepPace_space fun _ => .bind (paces.later .term) fun _ => keepPace_pure _

theorem isPaced_head : Production.head.IsPaced := by
  intro family length paces
  exact .expecting (AllKeepPace.firstOf
    (.cons (.bind (paces.lower .theoryAtom (by decide)) fun _ => keepPace_pure _)
    (.cons (.bind (paces.lower .aggregate (by decide)) fun _ => keepPace_pure _)
    (.cons (.bind (paces.lower .literal (by decide)) fun _ => keepPace_pure _) .nil)))) _

theorem isPaced_bodyElement : Production.bodyElement.IsPaced := by
  intro family length paces
  exact .expecting (AllKeepPace.firstOf
    (.cons (.bind (paces.lower .theoryAtom (by decide)) fun _ => keepPace_pure _)
    (.cons (.bind (paces.lower .conditional (by decide)) fun _ => keepPace_pure _) .nil))) _

theorem isPaced_rule : Production.rule.IsPaced := by
  intro family length paces
  refine .located (.expecting (.bind (.optional ?_) fun _ =>
    .bind (keepPace_sides paces (by decide)) ?_) _)
  · exact .bind (paces.lower .weight (by decide)) fun _ => .bind keepPace_space fun _ =>
      keepPace_pure _
  · rintro ⟨head, body⟩
    exact .bind keepPace_space fun _ => .bind (keepPace_token _) fun _ => keepPace_pure _

theorem isPaced_weakConstraint : Production.weakConstraint.IsPaced := by
  intro family length paces
  refine .located (.expecting (.guard (keepPace_token _) (consumes_token (by decide)) fun _ =>
    .bind keepPace_space fun _ => .commit ?_) _)
  refine .bind (paces.later .body) fun _ => .bind (keepPace_spacedToken _) fun _ =>
    .bind (keepPace_token _) fun _ => .bind keepPace_space fun _ =>
      .bind (paces.later .term) fun _ => .bind (.optional ?_) fun _ =>
        .bind (paces.loop .terms) fun _ => .bind keepPace_space fun _ =>
          .bind (keepPace_token _) fun _ => keepPace_pure _
  exact .bind (keepPace_spacedToken _) fun _ => paces.later .term

theorem isPaced_statement : Production.statement.IsPaced := by
  intro family length paces
  exact .expecting (AllKeepPace.firstOf
    (.cons (.bind (paces.lower .directive (by decide)) fun _ => keepPace_pure _)
    (.cons (.bind (paces.lower .weakConstraint (by decide)) fun _ => keepPace_pure _)
    (.cons (.bind (paces.lower .rule (by decide)) fun _ => keepPace_pure _) .nil)))) _

theorem Production.isPaced {α : Type} (production : Production α) : production.IsPaced := by
  cases production with
  | lowercaseName => exact fun _ _ _ => keepPace_name _
  | variableName =>
      exact fun _ _ _ => .located (.expecting (.bind (keepPace_name _) fun _ => keepPace_pure _) _)
  | integer => exact fun _ _ _ => keepPace_integer
  | quotedText => exact isPaced_quotedText
  | infixOperator => exact fun _ _ _ => keepPace_infixOperator
  | relation => exact fun _ _ _ => keepPace_relation
  | aggregateFunction => exact fun _ _ _ => keepPace_aggregateFunction
  | negation => exact fun _ _ _ => keepPace_negation
  | weight => exact fun _ _ _ => keepPace_weight
  | directive => exact fun _ _ _ => keepPace_directive
  | arguments => exact isPaced_arguments
  | functionTerm => exact isPaced_functionTerm
  | tuple => exact isPaced_tuple
  | primary => exact isPaced_primary
  | operand => exact isPaced_operand
  | operation strength => exact isPaced_operation strength
  | term => exact fun _ _ paces => (paces.lower (.operation 0) (by decide)).expecting _
  | boolean => exact fun _ _ _ => keepPace_boolean
  | comparison => exact isPaced_comparison
  | predicate => exact isPaced_predicate
  | leftGuard => exact isPaced_leftGuard
  | rightGuard => exact isPaced_rightGuard
  | aggregate => exact isPaced_aggregate
  | bodyAggregate => exact isPaced_bodyAggregate
  | atom => exact isPaced_atom
  | literal => exact isPaced_literal
  | conditional => exact isPaced_conditional
  | element => exact isPaced_element
  | theoryAtom => exact isPaced_theoryAtom
  | head => exact isPaced_head
  | bodyElement => exact isPaced_bodyElement
  | body =>
      exact fun _ _ paces => keepPace_nonemptyList paces .bodyElement .bodyElements (by decide)
  | rule => exact isPaced_rule
  | weakConstraint => exact isPaced_weakConstraint
  | statement => exact isPaced_statement

/-! Loops. -/

theorem Loop.keepPace_round {family : Family} {length : Nat}
    (paces : family.KeepsPace length loopRank) {α : Type} (loop : Loop α) :
    KeepPace (length + 1) (loop.round Production.parser) (loop.round family.production) := by
  have item {β : Type} (separator : Parser Unit) (called : Production β)
      (pace : KeepPace (length + 1) separator separator) :
      KeepPace (length + 1) (optional do separator; called.parser)
        (optional do separator; family called) :=
    .optional (.bind pace fun _ => paces.lower called called.rank_lt_loopRank)
  have comma := @keepPace_spacedToken (length + 1) ","
  have semicolon := @keepPace_spacedToken (length + 1) ";"
  cases loop with
  | spaces => exact keepPace_spaceItem.optional
  | textParts =>
      exact .optional (AllKeepPace.firstOf (.cons (keepPace_takeWhile1 _ (by decide))
        (.cons (.bind (keepPace_char _) fun _ => .bind (keepPace_oneOf _) fun _ =>
          keepPace_pure _) .nil)))
  | operators strength =>
      refine .bind (paces.lower .infixOperator (by decide)).optional fun found => ?_
      cases found with
      | none => exact keepPace_pure _
      | some operator =>
          simp only
          split
          · exact keepPace_pure _
          · have right := paces.lower (.operation operator.rightStrength)
              (Production.rank_lt_loopRank _)
            exact .bind keepPace_space fun _ => .bind right fun _ =>
              .bind keepPace_offset fun _ => keepPace_pure _
  | terms => exact item _ .term comma
  | literals => exact item _ .literal comma
  | conditionals => exact item _ .conditional semicolon
  | elements => exact item _ .element semicolon
  | bodyElements =>
      exact item _ .bodyElement (AllKeepPace.firstOf (.cons comma (.cons semicolon .nil)))
  | statements =>
      refine .bind (.bind keepPace_rest fun _ => keepPace_pure _) fun isEnd => ?_
      cases isEnd with
      | true => exact keepPace_pure _
      | false =>
          exact .bind (.bind (paces.lower .statement (by decide)).commit fun _ =>
            .bind keepPace_space fun _ => keepPace_pure _) fun _ => keepPace_pure _

theorem Loop.keepPace {family : Family} {length : Nat}
    (paces : family.KeepsPace length loopRank) {α : Type} (loop : Loop α) :
    KeepPace (length + 1) (loop.equation parsers) (loop.equation family) :=
  .roundThen (loop.keepPace_round paces) loop.advances (paces.loop loop)

/-! Nothing stalls. -/

/-- Pace is kept rank by rank. -/
theorem keepsPace_of_later {length : Nat}
    (later : ∀ {α : Type} (called : Production α), KeepPace length called.parser called.parser)
    (loop : ∀ {α : Type} (called : Loop α), KeepPace length called.parser called.parser)
    (rank : Nat) : parsers.KeepsPace length rank := by
  induction rank with
  | zero => exact ⟨later, loop, fun _ isLower => absurd isLower (Nat.not_lt_zero _)⟩
  | succ rank inductionHypothesis =>
      refine ⟨later, loop, fun called isLower => ?_⟩
      -- All that the production calls at its own place has been treated before it.
      have paces : parsers.KeepsPace length called.rank :=
        ⟨later, loop, fun other isBelow => inductionHypothesis.lower other (by omega)⟩
      have pace := called.isPaced parsers length paces
      rwa [called.equation_parsers] at pace

/-- The induction is on the length of the texts. -/
theorem parsers_keepsPace (length rank : Nat) : parsers.KeepsPace length rank := by
  induction length generalizing rank with
  | zero =>
      refine keepsPace_of_later ?_ ?_ rank
      · exact fun _ _ short => absurd short (Nat.not_lt_zero _)
      · exact fun _ _ short => absurd short (Nat.not_lt_zero _)
  | succ length inductionHypothesis =>
      refine keepsPace_of_later ?_ ?_ rank
      · intro α called
        exact (inductionHypothesis (called.rank + 1)).lower called (Nat.lt_succ_self _)
      · intro α called
        have pace := called.keepPace (inductionHypothesis loopRank)
        rwa [called.equation_parsers] at pace

/-! Calls descend. -/

section Calls

variable {family : Family} {cursor : Cursor} {rank : Nat}

theorem Family.AgreesBelow.keepsPace (agrees : family.AgreesBelow cursor rank) :
    family.KeepsPace cursor.rest.length rank where
  later called next shorter :=
    ⟨(agrees.production called next (.inl shorter)).symm,
      ((parsers_keepsPace _ 0).later called next shorter).2⟩
  loop called next shorter :=
    ⟨(agrees.loop called next (.inl shorter)).symm,
      ((parsers_keepsPace _ 0).loop called next shorter).2⟩
  lower called isLower next short := by
    refine ⟨(agrees.production called next ?_).symm,
      ((parsers_keepsPace _ 0).later called next short).2⟩
    rcases Nat.lt_succ_iff_lt_or_eq.mp short with shorter | same
    · exact .inl shorter
    · exact .inr ⟨same, isLower⟩

theorem Production.read_equation {α : Type} (production : Production α)
    (agrees : family.AgreesBelow cursor production.rank) :
    (production.equation family).read cursor = production.parser.read cursor := by
  have pace := production.isPaced family _ agrees.keepsPace cursor (Nat.lt_succ_self _)
  rw [← pace.1, production.equation_parsers]

theorem Loop.read_equation {α : Type} (loop : Loop α)
    (agrees : family.AgreesBelow cursor loopRank) :
    (loop.equation family).read cursor = loop.parser.read cursor := by
  have pace := loop.keepPace agrees.keepsPace cursor (Nat.lt_succ_self _)
  rw [← pace.1, loop.equation_parsers]

/-- Where calls descend, so does the number of calls that may still be nested. -/
theorem Descends.lt {next : Cursor} {lower : Nat} (descends : Descends cursor rank next lower)
    (isRank : lower ≤ loopRank) :
    next.rest.length * height + lower < cursor.rest.length * height + rank := by
  unfold loopRank at isRank
  unfold height
  rcases descends with shorter | ⟨same, isLower⟩ <;> omega

end Calls

/-! Unfolding. -/

/-- The equations, unfolded a number of times above a family of any parsers. -/
def Family.unfolded (bottom : Family) : Nat → Family
  | 0 => bottom
  | depth + 1 =>
      let family := bottom.unfolded depth
      ⟨fun production => production.equation family, fun loop => loop.equation family⟩

/-- What stands at the bottom does not matter as far as calls can be nested above it. -/
theorem Family.unfolded_agrees (bottom : Family) {depth : Nat} {cursor : Cursor} {rank : Nat}
    (enough : cursor.rest.length * height + rank ≤ depth) :
    (bottom.unfolded depth).AgreesBelow cursor rank := by
  induction depth generalizing cursor rank with
  | zero =>
      have none {next : Cursor} {lower : Nat} (isRank : lower ≤ loopRank) :
          ¬ Descends cursor rank next lower := fun descends => by
        have less := descends.lt isRank
        omega
      exact ⟨fun called _ descends => absurd descends (none called.rank_lt_loopRank.le),
        fun _ _ descends => absurd descends (none (Nat.le_refl _))⟩
  | succ depth inductionHypothesis =>
      constructor
      · intro α called next descends
        have less := descends.lt called.rank_lt_loopRank.le
        exact called.read_equation (inductionHypothesis (by omega))
      · intro α called next descends
        have less := descends.lt (Nat.le_refl _)
        exact called.read_equation (inductionHypothesis (by omega))

theorem Family.AgreesBelow.run_eq {family : Family} {text : List Char}
    (agrees : family.AgreesBelow (.start text) height) :
    family.program.run text = Program.parse text ∧
      family.singleStatement.run text = Statement.parse text := by
  have descends {next : Cursor} {rank : Nat} (isRank : rank ≤ loopRank)
      (short : next.rest.length < text.length + 1) : Descends (.start text) height next rank := by
    rcases Nat.lt_succ_iff_lt_or_eq.mp short with shorter | same
    · exact .inl shorter
    · exact .inr ⟨same, Nat.lt_of_le_of_lt isRank (by decide)⟩
  have statements : AgreeBelow (text.length + 1) (family.loop .statements)
      (parsers.loop .statements) :=
    fun next short => agrees.loop _ next (descends (Nat.le_refl _) short)
  have statement : AgreeBelow (text.length + 1) (family .statement) (parsers .statement) :=
    fun next short => agrees.production _ next (descends (by decide) short)
  have sameRun {α : Type} {first second : Parser α}
      (agree : AgreeBelow (text.length + 1) first second) : first.run text = second.run text := by
    unfold Parser.run
    rw [agree (.start text) (Nat.lt_succ_self _)]
  constructor
  · rw [Program.parse, ← program_eq]
    exact sameRun (.bind (.refl _) fun _ => statements)
  · rw [Statement.parse, ← singleStatement_eq]
    exact sameRun (.bind (.refl _) fun _ => .bind statement fun _ => .refl _)

theorem keepPace_program (bound : Nat) : KeepPace bound program program :=
  .bind keepPace_space fun _ => (parsers_keepsPace bound 0).loop .statements

theorem keepPace_singleStatement (bound : Nat) : KeepPace bound singleStatement singleStatement :=
  .bind keepPace_space fun _ => .bind ((parsers_keepsPace bound 0).later .statement) fun _ =>
    .bind keepPace_space fun _ => keepPace_pure _

/-- What is left at the second place is a proper suffix of what is left at the first one. -/
def Further (cursor next : Cursor) : Prop :=
  next.rest <:+ cursor.rest ∧ next.rest.length < cursor.rest.length

theorem further_of_read {α : Type} {parser : Parser α} {cursor next : Cursor} {value : α}
    (accepted : parser.read cursor = .accept value next)
    (shorter : next.rest.length < cursor.rest.length) : Further cursor next := by
  obtain ⟨text, isText⟩ := Cursor.text_of_le (le_of_read accepted)
  exact ⟨⟨text, isText.symm⟩, shorter⟩

/-- Each production leaves a proper suffix of what it was given, and so does each round of a loop
that answers. Their calls descend: what is answered to any other call does not matter. So programs
and statements are read as by equations that are unfolded as deep as the length of the text and the
number of ranks allow, above anything at all, and nowhere is a loop stopped. -/
theorem parsing_terminates :
    (∀ (α : Type) (production : Production α) (cursor next : Cursor) (value : α),
      production.parser.read cursor = .accept value next → Further cursor next) ∧
    (∀ (α : Type) (loop : Loop α) (cursor next : Cursor) (value : α),
      (loop.round Production.parser).read cursor = .accept (some value) next →
        Further cursor next) ∧
    (∀ (family : Family) (cursor : Cursor),
      (∀ (α : Type) (production : Production α), family.AgreesBelow cursor production.rank →
        (production.equation family).read cursor = production.parser.read cursor) ∧
      ∀ (α : Type) (loop : Loop α), family.AgreesBelow cursor loopRank →
        (loop.equation family).read cursor = loop.parser.read cursor) ∧
    (∀ (bottom : Family) (text : List Char) (depth : Nat), (text.length + 1) * height ≤ depth →
      (bottom.unfolded depth).program.run text = Program.parse text ∧
      (bottom.unfolded depth).singleStatement.run text = Statement.parse text) ∧
    (∀ (cursor : Cursor),
      (∀ (α : Type) (production : Production α), ¬ (production.parser.read cursor).Stalls) ∧
      ∀ (α : Type) (loop : Loop α), ¬ (loop.parser.read cursor).Stalls) ∧
    ∀ (text : List Char) (error : ParseError),
      Program.parse text = .error error ∨ Statement.parse text = .error error →
        ¬ error.IsStall := by
  refine ⟨?_, ?_, ?_, ?_, ?_, ?_⟩
  · intro α production cursor next value accepted
    exact further_of_read accepted (production.consumes _ _ _ accepted)
  · intro α loop cursor next value answered
    exact further_of_read answered (loop.advances _ _ _ answered)
  · intro family cursor
    exact ⟨fun α production agrees => production.read_equation agrees,
      fun α loop agrees => loop.read_equation agrees⟩
  · intro bottom text depth enough
    have agrees : (bottom.unfolded depth).AgreesBelow (.start text) height :=
      bottom.unfolded_agrees (by
        rw [← Nat.succ_mul]
        exact enough)
    exact agrees.run_eq
  · intro cursor
    have paces := parsers_keepsPace (cursor.rest.length + 1) 0
    exact ⟨fun α production => (paces.later production cursor (Nat.lt_succ_self _)).2,
      fun α loop => (paces.loop loop cursor (Nat.lt_succ_self _)).2⟩
  · rintro text error (failed | failed)
    · exact KeepPace.run keepPace_program failed
    · exact KeepPace.run keepPace_singleStatement failed

end SoftRules.Grammar
