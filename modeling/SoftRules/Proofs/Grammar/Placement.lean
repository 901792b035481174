import SoftRules.Proofs.Grammar.Ranges

/-!
Where the parts of a rule stand. Annotations remember a range inside of the range of their rule, and
so do heads, except for the head that is put in front of a constraint.
-/

set_option autoImplicit false

namespace SoftRules

open SoftRules.Parser SoftRules.Grammar

/-- One range lies in another one. -/
def Span.Inside (inner outer : Span) : Prop :=
  outer.start ≤ inner.start ∧ inner.start ≤ inner.stop ∧ inner.stop ≤ outer.stop

theorem Span.Inside.trans {first second third : Span} (inner : first.Inside second)
    (outer : second.Inside third) : first.Inside third := by
  unfold Span.Inside at *
  omega

/-- The component was read, inside of a range. -/
def Origin.Inside (origin : Origin) (whole : Span) : Prop :=
  ∃ span, origin = some span ∧ span.Inside whole

theorem Origin.Inside.widen {origin : Origin} {inner outer : Span}
    (inside : Origin.Inside origin inner) (wider : inner.Inside outer) :
    Origin.Inside origin outer := by
  obtain ⟨span, isOrigin, within⟩ := inside
  exact ⟨span, isOrigin, within.trans wider⟩

/-- The range between two places. -/
def Cursor.to (cursor next : Cursor) : Span := ⟨cursor.offset, next.offset⟩

theorem Cursor.to_inside {cursor first second next : Cursor} (before : cursor ≤ first)
    (forward : first ≤ second) (behind : second ≤ next) :
    (first.to second).Inside (cursor.to next) :=
  ⟨offset_le before, offset_le forward, offset_le behind⟩

def BodyElement.Placed (whole : Span) (element : BodyElement) : Prop :=
  ∀ remark, element = .theory remark → Origin.Inside remark.origin whole

/-- The annotations of a body stand inside of a range. -/
def BodyElement.AllPlaced (whole : Span) (body : List BodyElement) : Prop :=
  ∀ element ∈ body, element.Placed whole

theorem BodyElement.Placed.widen {inner outer : Span} {element : BodyElement}
    (placed : element.Placed inner) (wider : inner.Inside outer) : element.Placed outer :=
  fun remark isRemark => (placed remark isRemark).widen wider

theorem BodyElement.AllPlaced.widen {inner outer : Span} {body : List BodyElement}
    (placed : BodyElement.AllPlaced inner body) (wider : inner.Inside outer) :
    BodyElement.AllPlaced outer body :=
  fun element member => (placed element member).widen wider

/-- The head of a constraint, which is not written. -/
def Rule.IsHeadless (rule : Rule) : Prop := rule.head = .literal (.boolean false)

structure Rule.Placed (whole : Span) (rule : Rule) : Prop where
  origin : rule.origin = some whole
  head : rule.IsHeadless ∨ Origin.Inside rule.head.origin whole
  body : BodyElement.AllPlaced whole rule.body

def Statement.Placed (statement : Statement) : Prop :=
  ∃ whole, statement.origin = some whole ∧
    ∀ rule, statement = .rule rule → rule.Placed whole

namespace Grammar

theorem answers_forward {α : Type} (parser : Parser α) (cursor : Cursor) :
    parser.Answers cursor fun _ next => cursor ≤ next :=
  fun _ _ accepted => le_of_read accepted

/-- What holds of each item in its range holds of all of them in the range of the row. -/
theorem answers_many_inside {α : Type} {item : Parser α} (good : Span → α → Prop)
    (widen : ∀ value inner outer, good inner value → inner.Inside outer → good outer value)
    (each : ∀ cursor, item.Answers cursor fun value next => good (cursor.to next) value)
    (cursor : Cursor) :
    (many item).Answers cursor fun values last =>
      ∀ value ∈ values, good (cursor.to last) value := by
  induction size : cursor.rest.length using Nat.strongRecOn generalizing cursor with
  | ind size inductionHypothesis =>
      subst size
      refine .rounds (fun _ _ _ _ value member => nomatch member) ?_
      refine .optional ?_ fun _ value isValue => nomatch isValue
      refine ((each cursor).and (answers_forward item cursor)).imp ?_
      rintro value next ⟨isGood, forward⟩ _ ⟨⟩ shorter
      have others := inductionHypothesis _ shorter next rfl
      refine (others.and (answers_forward (many item) next)).imp ?_
      rintro values last ⟨areGood, further⟩
      refine List.forall_mem_cons.mpr ⟨?_, fun other member => ?_⟩
      · exact widen _ _ _ isGood (Cursor.to_inside (Cursor.le_refl _) forward further)
      · exact widen _ _ _ (areGood other member)
          (Cursor.to_inside forward further (Cursor.le_refl _))

theorem answers_theoryAtom_origin (cursor : Cursor) :
    theoryAtom.Answers cursor fun remark next => remark.origin = some (cursor.to next) :=
  answers_located _ (fun _ _ => rfl) cursor

theorem answers_literal_origin (cursor : Cursor) :
    literal.Answers cursor fun found next => found.origin = some (cursor.to next) := by
  rw [literal_eq]
  exact answers_located _ (fun _ _ => rfl) cursor

theorem answers_head_origin (cursor : Cursor) :
    head.Answers cursor fun found next => found.origin = some (cursor.to next) := by
  refine .expecting _ (.firstOf ⟨.bind (answers_theoryAtom_origin cursor) ?_, fun _ =>
    ⟨.bind (answers_located _ (fun _ _ => rfl) cursor) ?_, fun _ =>
      ⟨.bind (answers_literal_origin cursor) ?_, fun _ => trivial⟩⟩⟩)
  all_goals exact fun _ _ isOrigin => .pure isOrigin

theorem answers_bodyElement_placed (cursor : Cursor) :
    bodyElement.Answers cursor fun element next => element.Placed (cursor.to next) := by
  refine .expecting _ (.firstOf ⟨?_, fun _ => ⟨?_, fun _ => trivial⟩⟩)
  · have found := (answers_theoryAtom_origin cursor).and (answers_forward _ cursor)
    refine .bind found fun remark next isPlaced => .pure ?_
    rintro _ ⟨⟩
    exact ⟨_, isPlaced.1, Cursor.to_inside (Cursor.le_refl _) isPlaced.2 (Cursor.le_refl _)⟩
  · refine .after fun element next => .pure ?_
    intro remark isRemark
    split at isRemark <;> cases isRemark

theorem answers_body_placed (cursor : Cursor) :
    body.Answers cursor fun elements next => BodyElement.AllPlaced (cursor.to next) elements := by
  have item (cursor : Cursor) : (do
      firstOf [spacedToken ",", spacedToken ";"]
      bodyElement).Answers cursor fun element next => element.Placed (cursor.to next) := by
    refine .bind (answers_forward _ cursor) fun _ middle before => ?_
    refine ((answers_bodyElement_placed middle).and (answers_forward _ middle)).imp ?_
    rintro element next ⟨placed, forward⟩
    exact placed.widen (Cursor.to_inside before forward (Cursor.le_refl _))
  have items := answers_many_inside BodyElement.Placed
    (fun _ _ _ placed wider => placed.widen wider) item
  refine .bind ((answers_bodyElement_placed cursor).and (answers_forward _ cursor)) ?_
  rintro first middle ⟨placed, forward⟩
  refine .bind ((items middle).and (answers_forward _ middle)) ?_
  rintro others next ⟨othersPlaced, further⟩
  refine .pure (List.forall_mem_cons.mpr ⟨?_, fun other member => ?_⟩)
  · exact placed.widen (Cursor.to_inside (Cursor.le_refl _) forward further)
  · exact (othersPlaced other member).widen
      (Cursor.to_inside forward further (Cursor.le_refl _))

theorem answers_weight_origin (cursor : Cursor) :
    weight.Answers cursor fun remark next => Origin.Inside remark.origin (cursor.to next) := by
  have found := (answers_located (do
    return { name := "weight", arguments := [weightTerm (← weightNumber)] : TheoryAtom })
      (fun _ _ => rfl) cursor).and (answers_forward _ cursor)
  refine .expecting _ (.bind found ?_)
  rintro remark middle ⟨isOrigin, forward⟩
  refine .bind (answers_forward _ middle) fun _ _ first => ?_
  refine .bind (answers_forward _ _) fun _ _ second => ?_
  refine .bind (answers_forward _ _) fun _ next third => .pure ?_
  have behind := Cursor.le_trans first (Cursor.le_trans second third)
  exact ⟨_, isOrigin, Cursor.to_inside (Cursor.le_refl _) forward behind⟩

/-- A head that is written remembers where. -/
theorem answers_headAndBody_placed (cursor : Cursor) :
    headAndBody.Answers cursor fun found next =>
      (found.1 = .literal (.boolean false) ∨ Origin.Inside found.1.origin (cursor.to next)) ∧
        BodyElement.AllPlaced (cursor.to next) found.2 := by
  refine .firstOf ⟨?_, fun _ => ⟨?_, fun _ => trivial⟩⟩
  · refine .bind (answers_forward _ cursor) fun _ _ first => ?_
    refine .bind (answers_forward _ _) fun _ middle second => ?_
    refine .bind (.commit ((answers_body_placed middle).and (answers_forward _ middle))) ?_
    rintro body next ⟨placed, forward⟩
    have before := Cursor.le_trans first second
    exact .pure ⟨.inl rfl, placed.widen (Cursor.to_inside before forward (Cursor.le_refl _))⟩
  · refine .bind ((answers_head_origin cursor).and (answers_forward _ cursor)) ?_
    rintro head middle ⟨isOrigin, forward⟩
    have behind : (optional do spacedToken ":-"; commit body).Answers middle fun found next =>
        middle ≤ next ∧ BodyElement.AllPlaced (cursor.to next) (found.getD []) := by
      refine (answers_forward _ middle).and (.optional ?_ fun _ _ member => nomatch member)
      refine .bind (answers_forward _ middle) fun _ start first => .commit ?_
      refine ((answers_body_placed start).and (answers_forward _ start)).imp ?_
      rintro body next ⟨placed, further⟩
      have before := Cursor.le_trans forward first
      exact placed.widen (Cursor.to_inside before further (Cursor.le_refl _))
    refine .bind behind ?_
    rintro body next ⟨further, placed⟩
    exact .pure ⟨.inr ⟨_, isOrigin, Cursor.to_inside (Cursor.le_refl _) forward further⟩, placed⟩

theorem answers_rule_placed (cursor : Cursor) :
    rule.Answers cursor fun found next => found.Placed (cursor.to next) := by
  have parts : rule.Answers cursor fun found next =>
      (found.IsHeadless ∨ Origin.Inside found.head.origin (cursor.to next)) ∧
        BodyElement.AllPlaced (cursor.to next) found.body := by
    have weighted : (optional do
        let weight ← weight
        space
        return weight).Answers cursor fun found next => cursor ≤ next ∧
          BodyElement.AllPlaced (cursor.to next) (found.map BodyElement.theory).toList := by
      refine (answers_forward _ cursor).and (.optional ?_ fun _ _ member => nomatch member)
      refine .bind ((answers_weight_origin cursor).and (answers_forward _ cursor)) ?_
      rintro remark middle ⟨inside, forward⟩
      refine .bind (answers_forward _ middle) fun _ next further => .pure ?_
      rintro _ member _ rfl
      cases List.mem_singleton.mp member
      exact inside.widen (Cursor.to_inside (Cursor.le_refl _) forward further)
    refine .located (.expecting _ (.bind weighted ?_))
    rintro weight start ⟨first, weightPlaced⟩
    refine .bind ((answers_headAndBody_placed start).and (answers_forward _ start)) ?_
    rintro ⟨head, body⟩ middle ⟨⟨headPlaced, bodyPlaced⟩, second⟩
    refine .bind (answers_forward _ middle) fun _ _ third => ?_
    refine .bind (answers_forward _ _) fun _ next last => .pure fun _ => ?_
    have behind := Cursor.le_trans third last
    have inner := Cursor.to_inside first second behind
    have front := Cursor.to_inside (Cursor.le_refl cursor) first (Cursor.le_trans second behind)
    refine ⟨headPlaced.imp_right (·.widen inner), fun element member => ?_⟩
    rcases List.mem_append.mp member with inBody | isWeight
    · exact (bodyPlaced element inBody).widen inner
    · exact (weightPlaced element isWeight).widen front
  have origin : rule.Answers cursor fun found next => found.origin = some (cursor.to next) :=
    answers_located _ (fun _ _ => rfl) cursor
  exact (origin.and parts).imp fun _ _ found => ⟨found.1, found.2.1, found.2.2⟩

theorem answers_statement_placed (cursor : Cursor) :
    statement.Answers cursor fun found _ => found.Placed := by
  have rules : statement.Answers cursor fun found next =>
      ∀ content, found = .rule content → content.Placed (cursor.to next) := by
    refine .expecting _ (.firstOf ⟨.after fun _ _ => .pure nofun, fun _ =>
      ⟨.after fun _ _ => .pure nofun, fun _ =>
        ⟨.bind (answers_rule_placed cursor) fun _ _ placed => .pure ?_, fun _ => trivial⟩⟩⟩)
    rintro _ ⟨⟩
    exact placed
  exact ((answers_statement_origin cursor).and rules).imp fun _ next found =>
    ⟨cursor.to next, found.1, found.2⟩

end Grammar

/-- The statements of an accepted program and their parts remember where they were read. -/
theorem Program.placed_of_parse {text : List Char} {program : Program}
    (parsed : Program.parse text = .ok program) : ∀ statement ∈ program, statement.Placed := by
  have item (cursor : Cursor) : programStatement.Answers cursor fun found _ => found.Placed :=
    .bind (.commit (answers_statement_placed cursor)) fun _ _ placed =>
      .after fun _ _ => .pure placed
  have answers : Grammar.program.Answers (.start text) fun found _ =>
      ∀ statement ∈ found, statement.Placed :=
    .after fun _ next => answers_untilEnd item next
  obtain ⟨-, -, placed⟩ := answers.run parsed
  exact placed

end SoftRules
