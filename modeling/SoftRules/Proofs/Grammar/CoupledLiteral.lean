import SoftRules.Proofs.Grammar.Atom
import SoftRules.Proofs.Grammar.CoupledTerm

/-!
Literals on coupled texts.

A comparison or a bound may end with a term, so literals keep up with their copies loosely. A bound
in front of an aggregate that crosses the cut leads nowhere: neither an aggregate nor anything else
follows the last period of the copy, and without the bound no aggregate starts with a term.
-/

set_option autoImplicit false

namespace SoftRules.Grammar

open SoftRules.Parser

variable {coupling : Coupling}

theorem parallel_relation : Parallel id coupling.Beside relation relation := by
  have spelled (spelling : String) (isPlain : spelling.toList.all isPlain = true)
      (relation : Relation) : Parallel id coupling.Beside (do word spelling.toList; return relation)
        (do word spelling.toList; return relation) :=
    .bind (parallel_plainWord isPlain) fun _ _ _ => .pure rfl
  exact .expecting _ (parallel_firstOf (.cons (spelled "==" (by decide) _)
    (.cons (spelled "!=" (by decide) _) (.cons (spelled "<=" (by decide) _)
      (.cons (spelled ">=" (by decide) _) (.cons (spelled "=" (by decide) _)
        (.cons (spelled "<" (by decide) _) (.cons (spelled ">" (by decide) _) .nil))))))))

theorem rejects_relation_period : relation.Rejects ['.'] := by
  refine rejects_relation ?_
  rintro _ ⟨⟩
  decide

theorem parallel_boolean : Parallel Atom.erase coupling.Beside boolean boolean :=
  .located Atom.erase_relocate (parallel_firstOf
    (.cons (.bind (parallel_plainWord (by decide)) fun _ _ _ => .pure rfl)
      (.cons (.bind (parallel_plainWord (by decide)) fun _ _ _ => .pure rfl) .nil)))

theorem loosely_comparison : Loosely coupling Atom.erase comparison comparison := by
  refine .located Atom.erase_relocate (closely_term.bind ?_ ?_)
  · intro left left' sameLeft
    refine .after (parallel_space coupling) fun _ _ _ => .after parallel_relation ?_
    rintro relation _ rfl
    refine .after (parallel_space coupling) fun _ _ _ => ?_
    refine (closely_term.map fun right right' sameRight => ?_).loosely
    simp only [Atom.erase, sameLeft, sameRight]
    rfl
  · intro left text halted
    exact halted.rejects_after_space (.bind rejects_relation_period)

theorem parallel_predicate : Parallel Atom.erase coupling.Beside predicate predicate := by
  have minus : Parallel id coupling.Beside (do char '-'; space) (do char '-'; space) :=
    .bind (parallel_plainChar (by decide)) fun _ _ _ => parallel_space coupling
  refine .located Atom.erase_relocate (.bind minus.optional fun negation negation' same => ?_)
  rw [Option.map_id] at same
  cases (same : negation = negation')
  refine .bind (parallel_functionTerm fun _ => parallel_term) fun function function' same => ?_
  refine .pure ?_
  cases negation with
  | none => simp [Atom.erase, same]
  | some _ => simp [Atom.erase, Term.negate, Term.erase, Term.eraseAll, same]

/-! Bounds. -/

theorem closely_leftGuard : Closely coupling Guard.erase leftGuard leftGuard := by
  have behind : Parallel id coupling.Beside (do space; relation) (do space; relation) :=
    .bind (parallel_space coupling) fun _ _ _ => parallel_relation
  refine closely_term.follow ?_ ?_
  · intro term term' same
    refine Parallel.closely (.bind behind.optional fun relation relation' sameRelation => .pure ?_)
    rw [Option.map_id] at sameRelation
    cases (sameRelation : relation = relation')
    simp only [Guard.erase, same]
  · intro term text halted
    refine ⟨text, .bind (.optional_none ?_) fun _ _ => .pure trivial, halted⟩
    exact halted.rejects_after_space rejects_relation_period

/-- A bound with the space behind it. -/
def spacedGuard : Parser Guard := do
  let guard ← leftGuard
  space
  return guard

theorem closely_spacedGuard : Closely coupling Guard.erase spacedGuard spacedGuard := by
  refine closely_leftGuard.follow ?_ ?_
  · intro guard guard' same
    exact Parallel.closely (.bind (parallel_space coupling) fun _ _ _ => .pure same)
  · intro guard text halted
    exact ⟨['.'], .bind halted fun _ _ => .pure trivial, halted_period⟩

theorem startsTerm_of_accept {cursor next : Cursor} {guard : Guard}
    (accepted : spacedGuard.read cursor = .accept guard next) : StartsTerm cursor.rest := by
  by_cases starts : ∃ first ∈ cursor.rest.head?, isTermStart first = true
  · obtain ⟨first, isFirst, isStart⟩ := starts
    obtain ⟨others, isText⟩ := List.head?_eq_some_iff.mp isFirst
    exact ⟨first, others, isText, isStart⟩
  · have refused : ∀ first ∈ cursor.rest.head?, isTermStart first = false := by
      intro first isFirst
      exact Bool.eq_false_iff.mpr fun isStart => starts ⟨first, isFirst, isStart⟩
    have rejects : spacedGuard.Rejects cursor.rest := .bind (.bind (rejects_term refused))
    obtain ⟨error, rejected⟩ := rejects cursor.offset
    rw [show spacedGuard.read cursor = .reject error from rejected] at accepted
    cases accepted

section LeadingGuard

variable {β δ : Type} {look : β → δ} {further further' : Option Guard → Parser β}

/-- Where the bound was missed, so is what stands behind it. -/
theorem missed_leadingGuard {cursor : Cursor}
    (rejects : ∀ guard text, StartsTerm text → (further guard).Rejects text)
    (starts : StartsTerm cursor.rest) (missed : coupling.Missed (spacedGuard.read cursor)) :
    coupling.Missed ((leadingGuard >>= further).read cursor) := by
  change coupling.Missed ((Parser.optional spacedGuard >>= further).read cursor)
  rw [read_bind]
  cases read : spacedGuard.read cursor with
  | accept found next =>
      rw [read_optional_of_accept read]
      intro value stop accepted
      exact (missed found next read).of_length_le (length_le_of_read accepted)
  | reject failure =>
      -- Without the bound, the aggregate would start with a term.
      obtain ⟨error, rejected⟩ := rejects none cursor.rest starts cursor.offset
      have noAggregate : (further none).read cursor = .reject error := rejected
      rw [read_optional_of_reject read]
      simp only [noAggregate]
      exact fun _ _ accepted => nomatch accepted
  | abort failure =>
      rw [read_optional_of_abort read]
      exact fun _ _ accepted => nomatch accepted

/-- What needs an opening of its own behind a bound keeps up loosely. -/
theorem loosely_leadingGuard
    (behind : ∀ guard guard', guard.map Guard.erase = guard'.map Guard.erase →
      Loosely coupling look (further guard) (further' guard'))
    (rejects : ∀ guard text, StartsTerm text → (further guard).Rejects text)
    (rejects' : ∀ guard text, Halted text → (further' guard).Rejects text) :
    Loosely coupling look (leadingGuard >>= further) (leadingGuard >>= further') := by
  intro left right beside
  have close := closely_spacedGuard left right beside
  have missed := @missed_leadingGuard coupling _ _ left rejects
  change coupling.Loose look ((Parser.optional spacedGuard >>= further).read left)
    ((Parser.optional spacedGuard >>= further').read right)
  change _ → _ → coupling.Missed ((Parser.optional spacedGuard >>= further).read left) at missed
  generalize read : spacedGuard.read left = outcome at close missed
  generalize read' : spacedGuard.read right = outcome' at close
  cases close with
  | inStep inStep =>
      rw [read_bind, read_bind]
      cases inStep with
      | @accept guard guard' _ _ same nextBeside =>
          rw [read_optional_of_accept read, read_optional_of_accept read']
          exact behind (some guard) (some guard') (congrArg some same) _ _ nextBeside
      | reject =>
          rw [read_optional_of_reject read, read_optional_of_reject read']
          exact behind none none rfl left right beside
      | abort =>
          rw [read_optional_of_abort read, read_optional_of_abort read']
          exact .inStep .abort
  | @missed guard last crosses isMissed halted =>
      have starts : StartsTerm left.rest := by
        obtain ⟨first, others, isText, isStart⟩ := startsTerm_of_accept read'
        have isFirst : left.rest.head? = some first := by rw [beside.head?, isText]; rfl
        obtain ⟨others, isText⟩ := List.head?_eq_some_iff.mp isFirst
        exact ⟨first, others, isText, isStart⟩
      obtain ⟨error, rejected⟩ := rejects' (some guard) last.rest halted last.offset
      have isRejected : (Parser.optional spacedGuard >>= further').read right = .reject error := by
        rw [read_bind, read_optional_of_accept read']
        exact rejected
      rw [isRejected]
      exact loose_of_missed crosses (missed starts isMissed)

end LeadingGuard

theorem loosely_trailingGuard :
    Loosely coupling (Option.map Guard.erase) trailingGuard trailingGuard := by
  have inFront : Parallel id coupling.Beside (do let relation ← relation; space; return relation)
      (do let relation ← relation; space; return relation) := by
    refine .bind parallel_relation ?_
    rintro relation _ rfl
    exact .bind (parallel_space coupling) fun _ _ _ => .pure rfl
  have guard : Closely coupling Guard.erase rightGuard rightGuard := by
    refine .after inFront.optional fun relation relation' same => ?_
    rw [Option.map_id] at same
    cases (same : relation = relation')
    refine closely_term.map fun term term' sameTerm => ?_
    simp only [Guard.erase, sameTerm]
  exact (Closely.after (parallel_space coupling) fun _ _ _ => guard).loosely.optional

/-! Aggregates. -/

theorem parallel_aggregateFunction :
    Parallel id coupling.Beside aggregateFunction aggregateFunction := by
  have letters := parallel_takeWhile1 (coupling.unrolls (@isPlain_of_ne Char.isAlpha (by decide)))
    .letters
  have word : Parallel id coupling.Beside
      (do
        char '#'
        let _ ← takeWhile1 Char.isAlpha .letters
        let _ ← optional (char '+'))
      (do
        char '#'
        let _ ← takeWhile1 Char.isAlpha .letters
        let _ ← optional (char '+')) :=
    .bind (parallel_plainChar (by decide)) fun _ _ _ => .bind letters fun _ _ _ =>
      .bind (parallel_plainChar (by decide)).optional fun _ _ _ => .pure rfl
  exact (word.consumed coupling.keepsText).convert

section Literals

variable {literal literal' : Parser Literal}
  (loosely : ∀ coupling : Coupling, Loosely coupling Literal.erase literal literal')

include loosely

theorem loosely_condition :
    Loosely coupling (List.map Literal.erase) (condition literal) (condition literal') := by
  have literals : Loosely coupling (List.map Literal.erase)
      (do spacedToken ":"; separated1 (spacedToken ",") literal)
      (do spacedToken ":"; separated1 (spacedToken ",") literal') :=
    .after (parallel_spacedToken (by decide)) fun _ _ _ =>
      (loosely coupling).separated1 (parallel_spacedToken (by decide))
        (consumes_spacedToken (by decide)) fun _ halted => halted.rejects_spacedToken (by decide)
  exact literals.optional.map fun found found' same => view_getD same []

omit loosely in
theorem lenient_condition (literal : Parser Literal) : Lenient (condition literal) :=
  .bind (lenient_optional fun _ halted => .bind (halted.rejects_spacedToken (by decide)))
    fun _ => lenient_pure _

theorem loosely_conditional :
    Loosely coupling Conditional.erase (conditional literal) (conditional literal') := by
  refine .located Conditional.erase_relocate ((loosely coupling).bind ?_ ?_ ?_)
  · intro first first' same
    refine (loosely_condition loosely).map fun others others' sameOthers => ?_
    simp only [Conditional.erase, Literal.eraseAll_eq, same, sameOthers]
  · exact fun _ => .bind (lenient_condition literal) fun _ => lenient_pure _
  · exact fun _ => .bind (lenient_condition literal') fun _ => lenient_pure _

theorem loosely_element :
    Loosely coupling Element.erase (element literal) (element literal') := by
  have terms : Loosely coupling (List.map Term.erase) (separated1 (spacedToken ",") term)
      (separated1 (spacedToken ",") term) :=
    closely_term.loosely.separated1 (parallel_spacedToken (by decide))
      (consumes_spacedToken (by decide)) fun _ halted => halted.rejects_spacedToken (by decide)
  refine terms.bind ?_ ?_ ?_
  · intro terms terms' same
    refine (loosely_condition loosely).map fun others others' sameOthers => ?_
    simp only [Element.erase, Term.eraseAll_eq, Literal.eraseAll_eq, same, sameOthers]
  · exact fun _ => .bind (lenient_condition literal) fun _ => lenient_pure _
  · exact fun _ => .bind (lenient_condition literal') fun _ => lenient_pure _

omit loosely in
/-- Items in braces are in step. -/
theorem parallel_items {α γ : Type} {view : α → γ} {first second : Parser α}
    (loosely : ∀ coupling : Coupling, Loosely coupling view first second) :
    Parallel (List.map view) coupling.Beside (braced (separated (spacedToken ";") first))
      (braced (separated (spacedToken ";") second)) :=
  parallel_braced fun inner stops => .separated inner.keepsLag (parallel_spacedToken (by decide))
    ((loosely inner).parallel (stops.not_crosses (by decide)))

theorem loosely_aggregate :
    Loosely coupling Aggregate.erase (aggregate literal) (aggregate literal') := by
  refine .located Aggregate.erase_relocate (loosely_leadingGuard ?_ ?_ ?_)
  · intro left left' sameLeft
    refine .after (parallel_items fun _ => loosely_conditional loosely) ?_
    intro elements elements' same
    refine loosely_trailingGuard.map fun right right' sameRight => ?_
    simp only [Aggregate.erase, Conditional.eraseAll_eq, sameLeft, same, sameRight]
  · exact fun _ text starts => .bind (rejects_braced (starts.head_ne (by decide)))
  · exact fun _ text halted => .bind (rejects_braced (halted.head_ne rfl (by decide) (by decide)))

theorem loosely_bodyAggregate :
    Loosely coupling BodyAggregate.erase (bodyAggregate literal) (bodyAggregate literal') := by
  refine .located BodyAggregate.erase_relocate (loosely_leadingGuard ?_ ?_ ?_)
  · intro left left' sameLeft
    refine .after parallel_aggregateFunction ?_
    rintro function _ rfl
    refine .after (parallel_space coupling) fun _ _ _ => ?_
    refine .after (parallel_items fun _ => loosely_element loosely) ?_
    intro elements elements' same
    refine loosely_trailingGuard.map fun right right' sameRight => ?_
    simp only [BodyAggregate.erase, Element.eraseAll_eq, sameLeft, same, sameRight]
    rfl
  · exact fun _ text starts => .bind (rejects_aggregateFunction (starts.head_ne (by decide)))
  · exact fun _ text halted =>
      .bind (rejects_aggregateFunction (halted.head_ne rfl (by decide) (by decide)))

theorem loosely_atom : Loosely coupling Atom.erase (atom literal) (atom literal') := by
  refine .expecting _ (loosely_firstOf (.cons (Parallel.loosely parallel_boolean) (.cons ?_ (.cons ?_
    (.cons loosely_comparison (.cons (Parallel.loosely parallel_predicate) .nil))))))
  · exact (loosely_aggregate loosely).map fun _ _ same => by simp only [Atom.erase, same]
  · exact (loosely_bodyAggregate loosely).map fun _ _ same => by simp only [Atom.erase, same]

omit loosely in
theorem parallel_sign : Parallel id coupling.Beside sign sign := by
  have word : Parallel id coupling.Beside negation negation :=
    .bind (parallel_plainWord (by decide)) fun _ _ _ => parallel_space1 coupling
  exact parallel_firstOf (.cons (.bind word fun _ _ _ => .bind word fun _ _ _ => .pure rfl)
    (.cons (.bind word fun _ _ _ => .pure rfl) (.cons (.pure rfl) .nil)))

theorem loosely_literalStep :
    Loosely coupling Literal.erase (literalStep literal) (literalStep literal') := by
  refine .located Literal.erase_relocate (.expecting _ (.after parallel_sign ?_))
  rintro sign _ rfl
  refine (loosely_atom loosely).map fun atom atom' same => ?_
  simp only [Literal.erase, same]
  rfl

end Literals

theorem loosely_literal (coupling : Coupling) : Loosely coupling Literal.erase literal literal := by
  have unfolded (text : List Char) (coupling : Coupling) : Loosely coupling Literal.erase
      (fix.iterate (fun literal (_ : Unit) => literalStep (literal ())) text ())
      (fix.iterate (fun literal (_ : Unit) => literalStep (literal ())) text ()) := by
    induction text generalizing coupling with
    | nil => exact loosely_literalStep fun _ => Parallel.loosely (parallel_fail _)
    | cons character text inductionHypothesis => exact loosely_literalStep inductionHypothesis
  intro left right beside
  rw [literal, guarded_literalStep.read_fix (Nat.le_refl _),
    guarded_literalStep.read_fix beside.length_le]
  exact unfolded left.rest coupling left right beside

end SoftRules.Grammar
