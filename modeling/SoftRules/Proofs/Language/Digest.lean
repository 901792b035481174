import SoftRules.Language.Digest
import SoftRules.Proofs.Language.Erasure

/-!
The digest of a component tells it apart from all others of its sort, up to origins.

Components that are equal once their origins are erased have the same digest. The digests of any
two others diverge at a place where both have a datum of the same kind, but not the same one. So
they stay apart however the data of each kind are written down, as long as no datum can be mistaken
for another one of its kind.
-/

set_option autoImplicit false

namespace SoftRules

/-- The lists first differ in two data of the same kind. -/
inductive Diverge : List Datum → List Datum → Prop
  | here {datum datum' : Datum} {rest rest' : List Datum} (kind : datum.ctorIdx = datum'.ctorIdx)
      (different : datum ≠ datum') : Diverge (datum :: rest) (datum' :: rest')
  | later (datum : Datum) {rest rest' : List Datum} (diverged : Diverge rest rest') :
      Diverge (datum :: rest) (datum :: rest')

namespace Diverge

variable {first second : List Datum}

theorem ne (diverged : Diverge first second) : first ≠ second := by
  induction diverged with
  | here _ different => simp [different]
  | later _ _ inductionHypothesis => simpa using inductionHypothesis

theorem append_left (common : List Datum) (diverged : Diverge first second) :
    Diverge (common ++ first) (common ++ second) := by
  induction common with
  | nil => exact diverged
  | cons datum _ inductionHypothesis => exact .later datum inductionHypothesis

theorem append_right (rest rest' : List Datum) (diverged : Diverge first second) :
    Diverge (first ++ rest) (second ++ rest') := by
  induction diverged with
  | here kind different => exact .here kind different
  | later datum _ inductionHypothesis => exact .later datum inductionHypothesis

end Diverge

/-- The lists are the same if the proposition holds, and diverge otherwise. -/
def Tells (same : Prop) (first second : List Datum) : Prop :=
  (same ∧ first = second) ∨ (¬ same ∧ Diverge first second)

namespace Tells

variable {same other : Prop} {first second : List Datum}

theorem eq_iff (tells : Tells same first second) : first = second ↔ same := by
  rcases tells with ⟨holds, equal⟩ | ⟨fails, diverged⟩
  · simp [holds, equal]
  · simp [fails, diverged.ne]

theorem diverge (tells : Tells same first second) (fails : ¬ same) : Diverge first second := by
  rcases tells with ⟨holds, _⟩ | ⟨_, diverged⟩
  · exact absurd holds fails
  · exact diverged

theorem congr (tells : Tells same first second) (iff : same ↔ other) :
    Tells other first second := by
  rwa [propext iff] at tells

theorem datum (datum datum' : Datum) (kind : datum.ctorIdx = datum'.ctorIdx) :
    Tells (datum = datum') [datum] [datum'] := by
  by_cases equal : datum = datum'
  · exact .inl ⟨equal, by rw [equal]⟩
  · exact .inr ⟨equal, .here kind equal⟩

theorem index {number number' : Nat} (iff : number = number' ↔ same) :
    Tells same [.alternative number] [.alternative number'] :=
  (Tells.datum (.alternative number) (.alternative number') rfl).congr (by simp [iff])

theorem append {first' second' : List Datum} (tells : Tells same first second)
    (next : Tells other first' second') :
    Tells (same ∧ other) (first ++ first') (second ++ second') := by
  rcases tells with ⟨holds, rfl⟩ | ⟨fails, diverged⟩
  · rcases next with ⟨holds', rfl⟩ | ⟨fails', diverged⟩
    · exact .inl ⟨⟨holds, holds'⟩, rfl⟩
    · exact .inr ⟨fun both => fails' both.2, diverged.append_left first⟩
  · exact .inr ⟨fun both => fails both.1, diverged.append_right first' second'⟩

theorem cons (datum : Datum) (tells : Tells same first second) :
    Tells same (datum :: first) (datum :: second) := by
  rcases tells with ⟨holds, rfl⟩ | ⟨fails, diverged⟩
  · exact .inl ⟨holds, rfl⟩
  · exact .inr ⟨fails, diverged.later datum⟩

theorem apart {datum datum' : Datum} (kind : datum.ctorIdx = datum'.ctorIdx)
    (different : datum ≠ datum') (fails : ¬ same) :
    Tells same (datum :: first) (datum' :: second) :=
  .inr ⟨fails, .here kind different⟩

theorem cons_cases {datum datum' : Datum} (tells : Tells same (datum :: first) (datum' :: second)) :
    (datum ≠ datum' ∧ ¬ same) ∨ (datum = datum' ∧ Tells same first second) := by
  rcases tells with ⟨holds, equal⟩ | ⟨fails, diverged⟩
  · injection equal with equal rest
    exact .inr ⟨equal, .inl ⟨holds, rest⟩⟩
  · cases diverged with
    | here _ different => exact .inl ⟨different, fails⟩
    | later _ diverged => exact .inr ⟨rfl, .inr ⟨fails, diverged⟩⟩

/-- Lists of different lengths are told apart by these, all others by their members. -/
theorem member {size size' : Nat} {rest rest' : List Datum} (tells : Tells same first second)
    (others : Tells other (.length size :: rest) (.length size' :: rest')) :
    Tells (same ∧ other) (.length (size + 1) :: (first ++ rest))
      (.length (size' + 1) :: (second ++ rest')) := by
  rcases others.cons_cases with ⟨different, fails⟩ | ⟨equal, members⟩
  · exact .apart rfl (by simpa using different) fun both => fails both.2
  · obtain rfl : size = size' := by simpa using equal
    exact (tells.append members).cons _

end Tells

/-! Each sort of component is told apart by its parts, in the order in which they are written. The
length of a list stands in front of its members, so lists of different lengths diverge at once. -/

theorem Operator.tells (first second : Operator) :
    Tells (first = second) first.digest second.digest :=
  .index (by cases first <;> cases second <;> decide)

theorem Relation.tells (first second : Relation) :
    Tells (first = second) first.digest second.digest :=
  .index (by cases first <;> cases second <;> decide)

theorem AggregateFunction.tells (first second : AggregateFunction) :
    Tells (first = second) first.digest second.digest :=
  .index (by cases first <;> cases second <;> decide)

theorem Sign.tells (first second : Sign) : Tells (first = second) first.digest second.digest :=
  .index (by cases first <;> cases second <;> decide)

theorem Variable.tells (x y : Variable) : Tells (x.erase = y.erase) x.digest y.digest :=
  (Tells.datum (.text x.name) (.text y.name) rfl).congr (by simp [Variable.erase])

theorem Symbol.tells (first second : Symbol) :
    Tells (first = second) first.digest second.digest := by
  cases first with
  | number value =>
      cases second with
      | number other =>
          exact ((Tells.datum (.number value) (.number other) rfl).congr (by simp)).cons _
      | text other => exact .apart rfl (by simp) (by simp)
  | text value =>
      cases second with
      | number other => exact .apart rfl (by simp) (by simp)
      | text other =>
          exact ((Tells.datum (.text value) (.text other) rfl).congr (by simp)).cons _

mutual

theorem Term.tells : (first second : Term) →
    Tells (first.erase = second.erase) first.digest second.digest
  | .var x, second => by
      cases second <;> simp only [Term.digest]
      case var y => exact ((Variable.tells x y).congr (by simp [Term.erase])).cons _
      all_goals exact .apart rfl (by simp) (by simp [Term.erase])
  | .symbol value _, second => by
      cases second <;> simp only [Term.digest]
      case symbol other _ =>
        exact ((Symbol.tells value other).congr (by simp [Term.erase])).cons _
      all_goals exact .apart rfl (by simp) (by simp [Term.erase])
  | .function name arguments _, second => by
      cases second <;> simp only [Term.digest]
      case function name' others _ =>
        have names := Tells.datum (.text name) (.text name') rfl
        exact ((names.append (Term.tellsAll arguments others)).congr
          (by simp [Term.erase])).cons _
      all_goals exact .apart rfl (by simp) (by simp [Term.erase])
  | .operation operator operands _, second => by
      cases second <;> simp only [Term.digest]
      case operation operator' others _ =>
        exact (((Operator.tells operator operator').append (Term.tellsAll operands others)).congr
          (by simp [Term.erase])).cons _
      all_goals exact .apart rfl (by simp) (by simp [Term.erase])

theorem Term.tellsAll : (first second : List Term) →
    Tells (Term.eraseAll first = Term.eraseAll second)
      (.length first.length :: Term.digestAll first)
      (.length second.length :: Term.digestAll second)
  | [], [] => .inl ⟨rfl, rfl⟩
  | [], other :: others => .apart rfl (by simp) (by simp [Term.eraseAll])
  | term :: terms, [] => .apart rfl (by simp) (by simp [Term.eraseAll])
  | term :: terms, other :: others =>
      ((Term.tells term other).member (Term.tellsAll terms others)).congr (by simp [Term.eraseAll])

end

theorem Guard.tells (first second : Option Guard) :
    Tells (first.map Guard.erase = second.map Guard.erase) (Guard.digest first)
      (Guard.digest second) := by
  cases first <;> cases second <;> simp only [Guard.digest]
  case none.none => exact .inl ⟨trivial, rfl⟩
  case some.some guard other =>
    exact (((Relation.tells guard.relation other.relation).cons _).append
      (Term.tells guard.term other.term)).congr (by simp [Guard.erase])
  all_goals exact .apart rfl (by simp) (by simp)

mutual

theorem Literal.tells : (first second : Literal) →
    Tells (first.erase = second.erase) first.digest second.digest
  | ⟨sign, atom, _⟩, ⟨sign', atom', _⟩ => by
      simp only [Literal.digest]
      exact ((Sign.tells sign sign').append (Atom.tells atom atom')).congr (by simp [Literal.erase])

theorem Literal.tellsAll : (first second : List Literal) →
    Tells (Literal.eraseAll first = Literal.eraseAll second)
      (.length first.length :: Literal.digestAll first)
      (.length second.length :: Literal.digestAll second)
  | [], [] => .inl ⟨rfl, rfl⟩
  | [], _ :: _ => .apart rfl (by simp) (by simp [Literal.eraseAll])
  | _ :: _, [] => .apart rfl (by simp) (by simp [Literal.eraseAll])
  | literal :: literals, other :: others =>
      ((Literal.tells literal other).member (Literal.tellsAll literals others)).congr
        (by simp [Literal.eraseAll])

theorem Atom.tells : (first second : Atom Literal) →
    Tells (first.erase = second.erase) first.digest second.digest
  | .predicate term _, second => by
      cases second <;> simp only [Atom.digest]
      case predicate other _ => exact ((Term.tells term other).congr (by simp [Atom.erase])).cons _
      all_goals exact .apart rfl (by simp) (by simp [Atom.erase])
  | .boolean value _, second => by
      cases second <;> simp only [Atom.digest]
      case boolean other _ =>
        exact ((Tells.datum (.flag value) (.flag other) rfl).congr (by simp [Atom.erase])).cons _
      all_goals exact .apart rfl (by simp) (by simp [Atom.erase])
  | .comparison left relation right _, second => by
      cases second <;> simp only [Atom.digest]
      case comparison left' relation' right' _ =>
        exact ((((Term.tells left left').append (Relation.tells relation relation')).append
          (Term.tells right right')).congr (by simp [Atom.erase, and_assoc])).cons _
      all_goals exact .apart rfl (by simp) (by simp [Atom.erase])
  | .aggregate content, second => by
      cases second <;> simp only [Atom.digest]
      case aggregate other =>
        exact ((Aggregate.tells content other).congr (by simp [Atom.erase])).cons _
      all_goals exact .apart rfl (by simp) (by simp [Atom.erase])
  | .bodyAggregate content, second => by
      cases second <;> simp only [Atom.digest]
      case bodyAggregate other =>
        exact ((BodyAggregate.tells content other).congr (by simp [Atom.erase])).cons _
      all_goals exact .apart rfl (by simp) (by simp [Atom.erase])

theorem Aggregate.tells : (first second : Aggregate Literal) →
    Tells (first.erase = second.erase) first.digest second.digest
  | ⟨left, elements, right, _⟩, ⟨left', elements', right', _⟩ => by
      simp only [Aggregate.digest]
      exact (((Guard.tells left left').append (Conditional.tellsAll elements elements')).append
        (Guard.tells right right')).congr (by simp [Aggregate.erase, and_assoc])

theorem BodyAggregate.tells : (first second : BodyAggregate Literal) →
    Tells (first.erase = second.erase) first.digest second.digest
  | ⟨function, left, elements, right, _⟩, ⟨function', left', elements', right', _⟩ => by
      simp only [BodyAggregate.digest]
      exact ((((AggregateFunction.tells function function').append
        (Guard.tells left left')).append (Element.tellsAll elements elements')).append
        (Guard.tells right right')).congr (by simp [BodyAggregate.erase, and_assoc])

theorem Conditional.tells : (first second : Conditional Literal) →
    Tells (first.erase = second.erase) first.digest second.digest
  | ⟨literal, condition, _⟩, ⟨literal', condition', _⟩ => by
      simp only [Conditional.digest]
      exact ((Literal.tells literal literal').append
        (Literal.tellsAll condition condition')).congr (by simp [Conditional.erase])

theorem Conditional.tellsAll : (first second : List (Conditional Literal)) →
    Tells (Conditional.eraseAll first = Conditional.eraseAll second)
      (.length first.length :: Conditional.digestAll first)
      (.length second.length :: Conditional.digestAll second)
  | [], [] => .inl ⟨rfl, rfl⟩
  | [], _ :: _ => .apart rfl (by simp) (by simp [Conditional.eraseAll])
  | _ :: _, [] => .apart rfl (by simp) (by simp [Conditional.eraseAll])
  | element :: elements, other :: others =>
      ((Conditional.tells element other).member (Conditional.tellsAll elements others)).congr
        (by simp [Conditional.eraseAll])

theorem Element.tells : (first second : Element Literal) →
    Tells (first.erase = second.erase) first.digest second.digest
  | ⟨terms, condition⟩, ⟨terms', condition'⟩ => by
      simp only [Element.digest]
      exact ((Term.tellsAll terms terms').append
        (Literal.tellsAll condition condition')).congr (by simp [Element.erase])

theorem Element.tellsAll : (first second : List (Element Literal)) →
    Tells (Element.eraseAll first = Element.eraseAll second)
      (.length first.length :: Element.digestAll first)
      (.length second.length :: Element.digestAll second)
  | [], [] => .inl ⟨rfl, rfl⟩
  | [], _ :: _ => .apart rfl (by simp) (by simp [Element.eraseAll])
  | _ :: _, [] => .apart rfl (by simp) (by simp [Element.eraseAll])
  | element :: elements, other :: others =>
      ((Element.tells element other).member (Element.tellsAll elements others)).congr
        (by simp [Element.eraseAll])

end

theorem TheoryAtom.tells (first second : TheoryAtom) :
    Tells (first.erase = second.erase) first.digest second.digest := by
  have names := Tells.datum (.text first.name) (.text second.name) rfl
  exact (((names.append (Term.tellsAll first.arguments second.arguments)).append
    (Element.tellsAll first.elements second.elements)).append
    (Guard.tells first.guard second.guard)).congr (by simp [TheoryAtom.erase, and_assoc])

theorem Head.tells (first second : Head) :
    Tells (first.erase = second.erase) first.digest second.digest := by
  cases first <;> cases second <;> simp only [Head.digest]
  case literal.literal content other =>
    exact ((Literal.tells content other).congr (by simp [Head.erase])).cons _
  case aggregate.aggregate content other =>
    exact ((Aggregate.tells content other).congr (by simp [Head.erase])).cons _
  case theory.theory content other =>
    exact ((TheoryAtom.tells content other).congr (by simp [Head.erase])).cons _
  all_goals exact .apart rfl (by simp) (by simp [Head.erase])

theorem BodyElement.tells (first second : BodyElement) :
    Tells (first.erase = second.erase) first.digest second.digest := by
  cases first <;> cases second <;> simp only [BodyElement.digest]
  case literal.literal content other =>
    exact ((Literal.tells content other).congr (by simp [BodyElement.erase])).cons _
  case conditional.conditional content other =>
    exact ((Conditional.tells content other).congr (by simp [BodyElement.erase])).cons _
  case theory.theory content other =>
    exact ((TheoryAtom.tells content other).congr (by simp [BodyElement.erase])).cons _
  all_goals exact .apart rfl (by simp) (by simp [BodyElement.erase])

theorem BodyElement.tellsAll (first second : List BodyElement) :
    Tells (first.map BodyElement.erase = second.map BodyElement.erase)
      (.length first.length :: first.flatMap BodyElement.digest)
      (.length second.length :: second.flatMap BodyElement.digest) := by
  induction first generalizing second with
  | nil =>
      cases second with
      | nil => exact .inl ⟨rfl, rfl⟩
      | cons other others => exact .apart rfl (by simp) (by simp)
  | cons element elements inductionHypothesis =>
      cases second with
      | nil => exact .apart rfl (by simp) (by simp)
      | cons other others =>
          exact ((BodyElement.tells element other).member (inductionHypothesis others)).congr
            (by simp)

theorem Rule.tells (first second : Rule) :
    Tells (first.erase = second.erase) first.digest second.digest :=
  ((Head.tells first.head second.head).append
    (BodyElement.tellsAll first.body second.body)).congr (by simp [Rule.erase])

theorem WeakConstraint.tells (first second : WeakConstraint) :
    Tells (first.erase = second.erase) first.digest second.digest := by
  refine ((((Term.tells first.weight second.weight).append
    (Term.tells first.priority second.priority)).append
    (Term.tellsAll first.terms second.terms)).append
    (BodyElement.tellsAll first.body second.body)).congr ?_
  simp only [WeakConstraint.erase, WeakConstraint.mk.injEq]
  grind

theorem Directive.tells (first second : Directive) :
    Tells (first.erase = second.erase) first.digest second.digest :=
  (Tells.datum (.text first.text) (.text second.text) rfl).congr (by simp [Directive.erase])

theorem Statement.tells (first second : Statement) :
    Tells (first.erase = second.erase) first.digest second.digest := by
  cases first <;> cases second <;> simp only [Statement.digest]
  case rule.rule content other =>
    exact ((Rule.tells content other).congr (by simp [Statement.erase])).cons _
  case weakConstraint.weakConstraint content other =>
    exact ((WeakConstraint.tells content other).congr (by simp [Statement.erase])).cons _
  case directive.directive content other =>
    exact ((Directive.tells content other).congr (by simp [Statement.erase])).cons _
  all_goals exact .apart rfl (by simp) (by simp [Statement.erase])

end SoftRules
