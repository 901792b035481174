import SoftRules.Proofs.Grammar.Placement
import SoftRules.Proofs.Language.Parts

/-!
Components that were read one behind the other.

`Laid` says of a component that everything within it was read between two places, and that the
ranges within it form a tree; `Row` says it of several components in a row. `Lays` carries a row
through a parser: given what was read so far, it tells what has been read behind the parser. A
production that attaches its range to what it has read turns a row into a single component.
-/

set_option autoImplicit false

namespace SoftRules

open SoftRules.Parser SoftRules.Grammar

/-- What was read is given its range. -/
theorem Parser.Answers.located_to {α : Type} [Located α] {parser : Parser α} {cursor : Cursor}
    {good : α → Cursor → Prop}
    (answers : parser.Answers cursor fun value next =>
      good (Located.relocate (some (cursor.to next)) value) next) :
    (Parser.located parser).Answers cursor good := by
  intro value next accepted
  obtain ⟨found, isRead, rfl⟩ := located_accepts.mp accepted
  exact answers found next isRead

/-- A range from one place to a later one, both of them between two given places. -/
def Span.IsRead (start stop : Cursor) (span : Span) : Prop :=
  ∃ first last, start ≤ first ∧ first ≤ last ∧ last ≤ stop ∧ first.offset < last.offset ∧
    span = first.to last

theorem Span.IsRead.widen {start first last stop : Cursor} {span : Span}
    (isRead : span.IsRead first last) (before : start ≤ first) (behind : last ≤ stop) :
    span.IsRead start stop := by
  obtain ⟨left, right, isBefore, forward, isBehind, further, isSpan⟩ := isRead
  exact ⟨left, right, Cursor.le_trans before isBefore, forward, Cursor.le_trans isBehind behind,
    further, isSpan⟩

theorem Span.IsRead.inside {start stop : Cursor} {span : Span} (isRead : span.IsRead start stop) :
    span.Inside (start.to stop) := by
  obtain ⟨first, last, before, forward, behind, -, rfl⟩ := isRead
  exact Cursor.to_inside before forward behind

namespace Component

/-- The ranges within a component lie in its own range. -/
def Encloses (component : Component) : Prop :=
  ∀ inner whole part, component.origin = some whole → Within inner component →
    inner.origin = some part → part.Inside whole

/-- The annotation of a weight that is written in a range of the text. -/
def weightAt (text : List Char) (span : Span) : TheoryAtom where
  name := "weight"
  arguments := [weightTerm (Source.slice text span)]
  origin := some span

/-- The parts of a component stand in the text in the order in which the component keeps them. The
one exception is a rule that starts with a weight: the annotation of the weight ends the body of the
rule, but it stands in front of the head. -/
inductive InOrder (text : List Char) : Component → Prop
  | kept {component : Component} (ordered : component.parts.Pairwise Before) :
      InOrder text component
  | weighted {content : Rule} {others : List BodyElement} {start middle stop : Nat}
      (origin : content.origin = some ⟨start, stop⟩)
      (body : content.body = others ++ [.theory (weightAt text ⟨start, middle⟩)])
      (ordered : (bodyElement (.theory (weightAt text ⟨start, middle⟩)) :: head content.head ::
        others.map bodyElement).Pairwise Before) :
      InOrder text (rule content)

/-- Everything within the component was read between two places, and the ranges form a tree. -/
structure Laid (text : List Char) (start stop : Cursor) (component : Component) : Prop where
  forward : start ≤ stop
  ranges : ∀ inner, Within inner component → ∀ span, inner.origin = some span →
    span.IsRead start stop
  encloses : ∀ inner, Within inner component → inner.Encloses
  inOrder : ∀ inner, Within inner component → inner.InOrder text

section Laid

variable {text : List Char} {start first last stop : Cursor} {component : Component}

theorem Laid.widen (laid : Laid text first last component) (before : start ≤ first)
    (behind : last ≤ stop) : Laid text start stop component where
  forward := Cursor.le_trans before (Cursor.le_trans laid.forward behind)
  ranges inner below span isOrigin := (laid.ranges inner below span isOrigin).widen before behind
  encloses := laid.encloses
  inOrder := laid.inOrder

theorem Laid.part (laid : Laid text start stop component) {part : Component}
    (isPart : part ∈ component.parts) : Laid text start stop part where
  forward := laid.forward
  ranges inner below := laid.ranges inner (.part isPart below)
  encloses inner below := laid.encloses inner (.part isPart below)
  inOrder inner below := laid.inOrder inner (.part isPart below)

/-- A component around its parts, which remembers everything that was read or nothing at all. -/
theorem Laid.of_parts (forward : start ≤ stop)
    (parts : ∀ part ∈ component.parts, Laid text start stop part)
    (origin : component.origin = none ∨
      component.origin = some (start.to stop) ∧ start.offset < stop.offset)
    (inOrder : component.InOrder text) : Laid text start stop component := by
  have whole : ∀ span, component.origin = some span →
      span = start.to stop ∧ start.offset < stop.offset := by
    intro span isSpan
    rcases origin with isNone | ⟨isWhole, further⟩
    · cases isNone.symm.trans isSpan
    · exact ⟨Option.some.inj (isSpan.symm.trans isWhole), further⟩
  have ranges : ∀ inner, Within inner component → ∀ span, inner.origin = some span →
      span.IsRead start stop := by
    refine forall_within ?_ fun part isPart => (parts part isPart).ranges
    intro span isSpan
    obtain ⟨isWhole, further⟩ := whole span isSpan
    exact ⟨start, stop, Cursor.le_refl _, forward, Cursor.le_refl _, further, isWhole⟩
  refine ⟨forward, ranges, ?_, ?_⟩
  · refine forall_within ?_ fun part isPart => (parts part isPart).encloses
    intro inner outer span isOuter below isSpan
    rw [(whole outer isOuter).1]
    exact (ranges inner below span isSpan).inside
  · exact forall_within inOrder fun part isPart => (parts part isPart).inOrder

/-- A component that stands for its only part. -/
theorem Laid.wrap {part : Component} (laid : Laid text start stop part)
    (isOnly : component.parts = [part]) (sameOrigin : component.origin = part.origin) :
    Laid text start stop component := by
  have only {good : Component → Prop} (isGood : good component)
      (areGood : ∀ inner, Within inner part → good inner) :
      ∀ inner, Within inner component → good inner := by
    refine forall_within isGood ?_
    rw [isOnly]
    exact List.forall_mem_singleton.mpr areGood
  refine ⟨laid.forward, only ?_ laid.ranges, only ?_ laid.encloses, only ?_ laid.inOrder⟩
  · rw [sameOrigin]
    exact laid.ranges part (.refl part)
  · intro inner whole span isWhole below
    rw [sameOrigin] at isWhole
    have inPart (inner : Component) (below : Within inner part) :
        inner.origin = some span → span.Inside whole :=
      laid.encloses part (.refl part) inner whole span isWhole below
    refine only ?_ inPart inner below
    rw [sameOrigin]
    exact inPart part (.refl part)
  · exact .kept (isOnly ▸ List.pairwise_singleton _ _)

theorem Laid.before {other : Component} (laid : Laid text start first component)
    (behind : first ≤ last) (further : Laid text last stop other) : component.Before other := by
  intro earlier later left right below below' isLeft isRight
  obtain ⟨_, _, _, _, ends, _, rfl⟩ := laid.ranges earlier below left isLeft
  obtain ⟨_, _, starts, _, _, _, rfl⟩ := further.ranges later below' right isRight
  exact Cursor.offset_le (Cursor.le_trans ends (Cursor.le_trans behind starts))

end Laid

/-- Components that were read one behind the other, between two places. -/
inductive Row (text : List Char) : Cursor → Cursor → List Component → Prop
  | nil {start stop : Cursor} (forward : start ≤ stop) : Row text start stop []
  | cons {start first last stop : Cursor} {component : Component} {components : List Component}
      (before : start ≤ first) (laid : Laid text first last component)
      (others : Row text last stop components) : Row text start stop (component :: components)

namespace Row

variable {text : List Char} {start middle stop : Cursor} {component : Component}
  {components others : List Component}

theorem forward (row : Row text start stop components) : start ≤ stop := by
  induction row with
  | nil forward => exact forward
  | cons before laid _ inductionHypothesis =>
      exact Cursor.le_trans before (Cursor.le_trans laid.forward inductionHypothesis)

theorem laid (row : Row text start stop components) :
    ∀ component ∈ components, Laid text start stop component := by
  induction row with
  | nil _ => exact List.forall_mem_nil _
  | cons before laid others inductionHypothesis =>
      refine List.forall_mem_cons.mpr ⟨laid.widen before others.forward, fun other member => ?_⟩
      have behind := Cursor.le_trans before laid.forward
      exact (inductionHypothesis other member).widen behind (Cursor.le_refl _)

theorem ordered (row : Row text start stop components) : components.Pairwise Before := by
  induction row with
  | nil _ => exact .nil
  | cons _ laid others inductionHypothesis =>
      refine .cons (fun other member => ?_) inductionHypothesis
      exact laid.before (Cursor.le_refl _) (others.laid other member)

theorem widen {first : Cursor} (row : Row text start stop components) (before : first ≤ start) :
    Row text first stop components := by
  cases row with
  | nil forward => exact .nil (Cursor.le_trans before forward)
  | cons isBefore laid others => exact .cons (Cursor.le_trans before isBefore) laid others

theorem append (row : Row text start middle components) (further : Row text middle stop others) :
    Row text start stop (components ++ others) := by
  induction row with
  | nil forward => exact further.widen forward
  | cons before laid _ inductionHypothesis => exact .cons before laid (inductionHypothesis further)

theorem single (laid : Laid text start stop component) : Row text start stop [component] :=
  .cons (Cursor.le_refl _) laid (.nil (Cursor.le_refl _))

theorem laid_of_single (row : Row text start stop [component]) : Laid text start stop component :=
  row.laid component (List.mem_singleton_self _)

/-- A component whose parts were read in a row. -/
theorem close (row : Row text start stop component.parts)
    (isOrigin : component.origin = some (start.to stop)) (further : start.offset < stop.offset) :
    Laid text start stop component :=
  .of_parts row.forward row.laid (.inr ⟨isOrigin, further⟩) (.kept row.ordered)

/-- A component without an origin whose parts were read in a row. -/
theorem gather (row : Row text start stop component.parts) (noOrigin : component.origin = none) :
    Laid text start stop component :=
  .of_parts row.forward row.laid (.inl noOrigin) (.kept row.ordered)

end Row

end Component

namespace Grammar

open Component

/-- With `before` in front of it, the parser goes on to a row of `parts`. -/
def Lays {α : Type} (text : List Char) (before : List Component) (parser : Parser α)
    (parts : α → List Component) : Prop :=
  ∀ start cursor, Row text start cursor before →
    parser.Answers cursor fun value next => Row text start next (parts value)

namespace Lays

variable {α β : Type} {text : List Char} {before : List Component} {parser : Parser α}
  {parts : α → List Component} {further : α → Parser β} {fine : β → List Component}

/-- Whatever was read, nothing was added to the row. -/
theorem skip (parser : Parser α) : Lays text before parser fun _ => before := by
  intro start cursor row value next accepted
  have whole := row.append (.nil (le_of_read accepted))
  rwa [List.append_nil] at whole

theorem pure {value : α} (same : before = parts value) :
    Lays text before (Pure.pure value) parts :=
  fun _ _ row => .pure (same ▸ row)

/-- What was read is gathered in a component without an origin. -/
theorem gather {wrap : α → Component} {value : α} (isParts : before = (wrap value).parts)
    (noOrigin : (wrap value).origin = none) :
    Lays text before (Pure.pure value) fun value => [wrap value] := by
  intro start cursor row
  rw [isParts] at row
  exact .pure (.single (row.gather noOrigin))

/-- The only component that was read is wrapped in another one. -/
theorem wrap {wrap : α → Component} {value : α} {part : Component}
    (isOnly : (wrap value).parts = [part]) (sameOrigin : (wrap value).origin = part.origin) :
    Lays text [part] (Pure.pure value) fun value => [wrap value] :=
  fun _ _ row => .pure (.single (row.laid_of_single.wrap isOnly sameOrigin))

theorem bind (first : Lays text before parser parts)
    (second : ∀ value, Lays text (parts value) (further value) fine) :
    Lays text before (parser >>= further) fine :=
  fun start cursor row =>
    .bind (first start cursor row) fun value next behind => second value start next behind

/-- What is read into an empty row stands behind every row. -/
theorem frame (lays : Lays text [] parser parts) :
    Lays text before parser fun value => before ++ parts value := by
  intro start cursor row
  refine (lays cursor cursor (.nil (Cursor.le_refl _))).imp ?_
  exact fun value next behind => row.append behind

theorem next (first : Lays text [] parser parts)
    (second : ∀ value, Lays text (before ++ parts value) (further value) fine) :
    Lays text before (parser >>= further) fine :=
  .bind first.frame second

theorem past (second : ∀ value, Lays text before (further value) fine) :
    Lays text before (parser >>= further) fine :=
  .bind (.skip parser) second

theorem of_answers {wrap : α → Component}
    (answers : ∀ cursor,
      parser.Answers cursor fun value next => Laid text cursor next (wrap value)) :
    Lays text [] parser fun value => [wrap value] :=
  fun _ cursor row => (answers cursor).imp fun _ _ laid => (Row.single laid).widen row.forward

theorem answers {wrap : α → Component} (lays : Lays text [] parser fun value => [wrap value])
    (cursor : Cursor) :
    parser.Answers cursor fun value next => Laid text cursor next (wrap value) :=
  (lays cursor cursor (.nil (Cursor.le_refl _))).imp fun _ _ row => row.laid_of_single

theorem expecting (expectation : Expectation) (lays : Lays text before parser parts) :
    Lays text before (Parser.expecting expectation parser) parts :=
  fun start cursor row => .expecting _ (lays start cursor row)

theorem commit (lays : Lays text before parser parts) :
    Lays text before (Parser.commit parser) parts :=
  fun start cursor row => .commit (lays start cursor row)

theorem firstOf {parsers : List (Parser α)}
    (each : parsers.Forall fun parser => Lays text before parser parts) :
    Lays text before (Parser.firstOf parsers) parts := by
  intro start cursor row
  refine .firstOf (answersOne_of_forall fun parser member => ?_)
  exact List.forall_iff_forall_mem.mp each parser member start cursor row

theorem optional {found : Option α → List Component}
    (lays : Lays text before parser fun value => found (some value))
    (nothing : Lays text before (Pure.pure none) found) :
    Lays text before (Parser.optional parser) found :=
  fun start cursor row =>
    .optional (lays start cursor row) fun _ => nothing start cursor row none cursor rfl

section Repetition

variable {wrap : α → Component} {separator : Parser Unit}
  (each : Lays text [] parser fun value => [wrap value])

include each

theorem many : Lays text [] (Parser.many parser) fun values => values.map wrap := by
  have round (cursor : Cursor) : (Parser.optional parser).Answers cursor fun found next =>
      ∀ value, found = some value → Laid text cursor next (wrap value) := by
    refine .optional ((each.answers cursor).imp ?_) (by simp)
    rintro value next laid _ ⟨⟩
    exact laid
  intro start cursor row
  refine (answers_rounds_chain round cursor).imp fun values last chain => ?_
  refine Row.widen ?_ row.forward
  clear row
  induction chain with
  | nil cursor => exact .nil (Cursor.le_refl cursor)
  | cons laid _ _ inductionHypothesis => exact .cons (Cursor.le_refl _) laid inductionHypothesis

theorem separated1 :
    Lays text [] (Parser.separated1 separator parser) fun values => values.map wrap := by
  have behind : Lays text [] (separator >>= fun _ => parser) fun value => [wrap value] :=
    .past fun _ => each
  exact .next each fun _ => .next behind.many fun _ => .pure rfl

theorem separated :
    Lays text [] (Parser.separated separator parser) fun values => values.map wrap := by
  have found : Lays text [] (Parser.optional (Parser.separated1 separator parser))
      fun values => (values.getD []).map wrap := .optional each.separated1 (.pure rfl)
  exact .bind found fun _ => .pure rfl

end Repetition

theorem braced (lays : Lays text [] parser parts) : Lays text [] (Grammar.braced parser) parts :=
  .past fun _ => .past fun _ => .next lays fun _ => .past fun _ => .past fun _ => .pure rfl

/-- The parts that were read become a component, which remembers where. -/
theorem located [Located α] {wrap : α → Component} (consumes : (Parser.located parser).Consumes)
    (lays : ∀ origin, Lays text [] parser fun value => (wrap (Located.relocate origin value)).parts)
    (isOrigin : ∀ origin value, (wrap (Located.relocate origin value)).origin = origin) :
    Lays text [] (Parser.located parser) fun value => [wrap value] := by
  refine .of_answers fun cursor value next accepted => ?_
  have further := Cursor.offset_lt_of_length_lt (le_of_read accepted) (consumes _ _ _ accepted)
  obtain ⟨found, isRead, rfl⟩ := located_accepts.mp accepted
  have row := lays (some (cursor.to next)) cursor cursor (.nil (Cursor.le_refl _)) found next isRead
  exact row.close (isOrigin _ found) further

end Lays

end Grammar

end SoftRules
