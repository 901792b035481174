import SoftRules.Proofs.Grammar.Atom

/-!
Plain programs, in which nothing can be mistaken for something else.

A program is plain if none of its functions is named `not`, no number that is not negative is
negated, and no head of a rule is a signed `#false` or a negated aggregate. This does not depend on
how the parts of the program are written, unlike faithfulness, which follows from it for lexical
programs.
-/

set_option autoImplicit false

namespace SoftRules

open SoftRules.Grammar

mutual

def Term.isPlain : Term → Bool
  | .var _ => true
  | .symbol _ _ => true
  | .function name arguments _ => name != "not" && Term.arePlain arguments
  | .operation operator operands _ =>
      (Term.signedNumber? operator operands).isNone && Term.arePlain operands

def Term.arePlain : List Term → Bool
  | [] => true
  | term :: terms => term.isPlain && Term.arePlain terms

end

def Guard.isPlain (guard : Option Guard) : Bool :=
  guard.all fun guard => guard.term.isPlain

mutual

def Literal.isPlain : Literal → Bool
  | ⟨_, atom, _⟩ => atom.isPlain

def Literal.arePlain : List Literal → Bool
  | [] => true
  | literal :: literals => literal.isPlain && Literal.arePlain literals

def Atom.isPlain : Atom Literal → Bool
  | .predicate term _ => term.isPlain
  | .boolean _ _ => true
  | .comparison left _ right _ => left.isPlain && right.isPlain
  | .aggregate content => content.isPlain
  | .bodyAggregate content => content.isPlain

def Aggregate.isPlain : Aggregate Literal → Bool
  | ⟨left, elements, right, _⟩ =>
      Guard.isPlain left && Conditional.arePlain elements && Guard.isPlain right

def BodyAggregate.isPlain : BodyAggregate Literal → Bool
  | ⟨_, left, elements, right, _⟩ =>
      Guard.isPlain left && Element.arePlain elements && Guard.isPlain right

def Conditional.isPlain : Conditional Literal → Bool
  | ⟨literal, condition, _⟩ => literal.isPlain && Literal.arePlain condition

def Conditional.arePlain : List (Conditional Literal) → Bool
  | [] => true
  | element :: elements => element.isPlain && Conditional.arePlain elements

def Element.isPlain : Element Literal → Bool
  | ⟨terms, condition⟩ => Term.arePlain terms && Literal.arePlain condition

def Element.arePlain : List (Element Literal) → Bool
  | [] => true
  | element :: elements => element.isPlain && Element.arePlain elements

end

theorem Term.arePlain_iff (terms : List Term) :
    Term.arePlain terms = true ↔ ∀ term ∈ terms, term.isPlain = true := by
  induction terms with
  | nil => simp [Term.arePlain]
  | cons term terms inductionHypothesis => simp [Term.arePlain, inductionHypothesis]

theorem Literal.arePlain_iff (literals : List Literal) :
    Literal.arePlain literals = true ↔ ∀ literal ∈ literals, literal.isPlain = true := by
  induction literals with
  | nil => simp [Literal.arePlain]
  | cons literal literals inductionHypothesis => simp [Literal.arePlain, inductionHypothesis]

theorem Conditional.arePlain_iff (elements : List (Conditional Literal)) :
    Conditional.arePlain elements = true ↔ ∀ element ∈ elements, element.isPlain = true := by
  induction elements with
  | nil => simp [Conditional.arePlain]
  | cons element elements inductionHypothesis => simp [Conditional.arePlain, inductionHypothesis]

theorem Element.arePlain_iff (elements : List (Element Literal)) :
    Element.arePlain elements = true ↔ ∀ element ∈ elements, element.isPlain = true := by
  induction elements with
  | nil => simp [Element.arePlain]
  | cons element elements inductionHypothesis => simp [Element.arePlain, inductionHypothesis]

def TheoryAtom.isPlain (atom : TheoryAtom) : Bool :=
  Term.arePlain atom.arguments && Element.arePlain atom.elements && Guard.isPlain atom.guard

def Atom.isAggregate : Atom Literal → Bool
  | .aggregate _ => true
  | _ => false

/-- Neither a signed `#false` nor an aggregate with the sign `not` is a plain head. -/
def Head.isPlain : Head → Bool
  | .literal content =>
      (content.sign == .plain || !content.atom.isFalse) &&
        !(content.sign == .negated && content.atom.isAggregate) && content.isPlain
  | .aggregate content => content.isPlain
  | .theory content => content.isPlain

def BodyElement.isPlain : BodyElement → Bool
  | .literal content => content.isPlain
  | .conditional content => content.isPlain
  | .theory content => content.isPlain

def Statement.isPlain : Statement → Bool
  | .rule content => content.head.isPlain && content.body.all BodyElement.isPlain
  | .weakConstraint content =>
      content.body.all BodyElement.isPlain &&
        Term.arePlain (content.weight :: content.priority :: content.terms)
  | .directive _ => true

def Program.isPlain (program : Program) : Bool := program.all Statement.isPlain

mutual

theorem Term.isFaithful_of_isPlain : (term : Term) → term.isPlain = true → term.isFaithful = true
  | .var _, _ => rfl
  | .symbol _ _, _ => rfl
  | .function _ arguments _, plain =>
      Term.areFaithful_of_arePlain arguments (Bool.and_eq_true_iff.mp plain).2
  | .operation operator operands _, plain => by
      simp only [Term.isPlain, Bool.and_eq_true] at plain
      simp [Term.isFaithful, plain.1, Term.areFaithful_of_arePlain operands plain.2]

theorem Term.areFaithful_of_arePlain : (terms : List Term) → Term.arePlain terms = true →
    Term.areFaithful terms = true
  | [], _ => rfl
  | term :: terms, plain => by
      simp only [Term.arePlain, Bool.and_eq_true] at plain
      simp [Term.areFaithful, Term.isFaithful_of_isPlain term plain.1,
        Term.areFaithful_of_arePlain terms plain.2]

end

theorem Guard.isFaithful_of_isPlain {guard : Option Guard} (plain : Guard.isPlain guard = true) :
    Guard.isFaithful guard = true := by
  cases guard with
  | none => rfl
  | some guard => exact Term.isFaithful_of_isPlain guard.term plain

/-! The text of a plain atom does not start like a negated one. -/

section Start

variable {rest : List Char}

theorem startsNegation_of_head {text : List Char} (refused : 'n' ∉ text.head?) :
    startsNegation text = false := by
  cases text with
  | nil => rfl
  | cons first text =>
      have other : 'n' ≠ first := fun isFirst => refused (by rw [isFirst]; rfl)
      simp [startsNegation, List.isPrefixOf, other]

theorem takeWhile_name {name : List Char} (inside : ∀ next ∈ name, isNameCharacter next = true)
    (ends : EndsName rest) : (name ++ rest).takeWhile isNameCharacter = name := by
  have nothing : rest.takeWhile isNameCharacter = [] := by
    cases rest with
    | nil => rfl
    | cons next rest => simp [ends next rfl]
  rw [List.takeWhile_append_of_pos inside, nothing, List.append_nil]

theorem endsName_cons {first : Char} (refused : isNameCharacter first = false) :
    EndsName (first :: rest) := by
  rintro _ ⟨⟩
  exact refused

/-- The word `not` is a name of its own where it is read as a negation. -/
theorem takeWhile_of_startsNegation {text : List Char} (starts : startsNegation text = true) :
    text.takeWhile isNameCharacter = ['n', 'o', 't'] := by
  simp only [startsNegation, Bool.and_eq_true] at starts
  obtain ⟨isStart, isNext⟩ := starts
  obtain ⟨behind, rfl⟩ := List.isPrefixOf_iff_prefix.mp isStart
  apply takeWhile_name (List.all_eq_true.mp rfl)
  cases behind with
  | nil => cases isNext
  | cons next behind =>
      apply endsName_cons
      simp only [isSpace, List.cons_append, List.nil_append, List.getElem?_cons_succ,
        List.getElem?_cons_zero, Option.any_some, Bool.or_eq_true, beq_iff_eq] at isNext
      rcases isNext with (((rfl | rfl) | rfl) | rfl) | rfl <;> decide

theorem startsNegation_name {name : String} (valid : isName Char.isLower name = true)
    (other : name ≠ "not") (ends : EndsName rest) : startsNegation (name.toList ++ rest) = false := by
  rw [Bool.eq_false_iff]
  intro starts
  obtain ⟨first, others, shape, isLower, areOthers⟩ := isName_cons valid
  have inside : ∀ next ∈ name.toList, isNameCharacter next = true := by
    have isFirst : isNameCharacter first = true := by
      simp [isNameCharacter, Char.isAlphanum, isAlpha_eq, isLower]
    rw [shape]
    exact List.forall_mem_cons.mpr ⟨isFirst, areOthers⟩
  have word := takeWhile_of_startsNegation starts
  rw [takeWhile_name inside ends] at word
  exact other (String.toList_inj.mp word)

theorem endsName_operator (operator : Operator) : EndsName (operator.symbol.toList ++ rest) := by
  cases operator <;> exact endsName_cons (by decide)

theorem endsName_relation (relation : Relation) : EndsName (relation.symbol.toList ++ rest) := by
  cases relation <;> exact endsName_cons (by decide)

theorem startsNegation_write : (term : Term) → term.isLexical = true → term.isPlain = true →
    {rest : List Char} → EndsName rest → startsNegation (term.write rest) = false
  | .var x, lexical, _, rest, _ => by
      obtain ⟨first, others, shape, isStart, _⟩ := isName_cons lexical
      rw [Term.write_var, shape]
      apply startsNegation_of_head
      rintro ⟨⟩
      cases isStart
  | .symbol (.number value) origin, _, _, rest, _ => by
      rw [Term.write_symbol]
      apply startsNegation_of_head
      obtain ⟨first, others, shape, isDigit⟩ := toDigits_cons value.natAbs
      rw [Symbol.render, toList_toString, shape]
      split
      · rintro ⟨⟩
      · rintro ⟨⟩
        cases isDigit
  | .symbol (.text value) origin, _, _, rest, _ => by
      rw [Term.write_text]
      exact startsNegation_of_head (by rintro ⟨⟩)
  | .function name arguments origin, lexical, plain, rest, ends => by
      simp only [Term.isLexical, Bool.and_eq_true, Bool.or_eq_true, beq_iff_eq] at lexical
      simp only [Term.isPlain, Bool.and_eq_true, bne_iff_ne] at plain
      by_cases named : name = ""
      · subst named
        rw [Term.write_tuple]
        exact startsNegation_of_head (by rintro ⟨⟩)
      · have valid := lexical.1.resolve_left named
        by_cases nonempty : arguments = []
        · subst nonempty
          rw [Term.write_constant named]
          exact startsNegation_name valid plain.1 ends
        · rw [Term.write_function named nonempty]
          exact startsNegation_name valid plain.1 (endsName_cons (by decide))
  | .operation operator [operand] origin, lexical, _, rest, _ => by
      simp only [Term.isLexical, Bool.and_eq_true] at lexical
      rw [Operator.isUnary_iff.mp lexical.1, Term.write_negation]
      exact startsNegation_of_head (by rintro ⟨⟩)
  | .operation operator [left, right] origin, lexical, plain, rest, ends => by
      simp only [Term.isLexical, Bool.and_eq_true] at lexical
      simp only [Term.isPlain, Term.arePlain, Bool.and_eq_true] at plain
      rw [Term.write_binary]
      cases left.bindsWeakerThan operator false with
      | true =>
          rw [Term.writeOperand_true]
          exact startsNegation_of_head (by rintro ⟨⟩)
      | false =>
          exact startsNegation_write left lexical.1.2 plain.2.1 (endsName_operator operator)

theorem startsNegation_writeLeft {left : Option Guard} (lexical : Guard.isLexical left = true)
    (plain : Guard.isPlain left = true) (refused : 'n' ∉ rest.head?) :
    startsNegation (Guard.writeLeft left rest) = false := by
  cases left with
  | none => exact startsNegation_of_head refused
  | some guard =>
      rw [Guard.writeLeft_some]
      exact startsNegation_write guard.term lexical plain (endsName_cons (by decide))

theorem startsNegation_atom {atom : Atom Literal} (lexical : atom.isLexical = true)
    (plain : atom.isPlain = true) (spaced : Bool) :
    startsNegation (atom.render.toList ++ gap spaced) = false := by
  have ends : EndsName (gap spaced) := by
    cases spaced with
    | true => exact endsName_cons (by decide)
    | false => rintro _ ⟨⟩
  change startsNegation (atom.write (gap spaced)) = false
  cases atom with
  | predicate term origin =>
      simp only [Atom.isLexical, Bool.and_eq_true] at lexical
      rw [Atom.write_predicate]
      exact startsNegation_write term lexical.2 plain ends
  | boolean value origin =>
      rw [Atom.write_boolean]
      exact startsNegation_of_head (by rintro ⟨⟩)
  | comparison left relation right origin =>
      simp only [Atom.isLexical, Bool.and_eq_true] at lexical
      simp only [Atom.isPlain, Bool.and_eq_true] at plain
      rw [Atom.write_comparison]
      exact startsNegation_write left lexical.1 plain.1 (endsName_relation relation)
  | aggregate content =>
      obtain ⟨left, elements, right, origin⟩ := content
      simp only [Atom.isLexical, Aggregate.isLexical, Bool.and_eq_true] at lexical
      simp only [Atom.isPlain, Aggregate.isPlain, Bool.and_eq_true] at plain
      rw [Atom.write_aggregate]
      exact startsNegation_writeLeft lexical.1.1 plain.1.1 (by rintro ⟨⟩)
  | bodyAggregate content =>
      obtain ⟨function, left, elements, right, origin⟩ := content
      simp only [Atom.isLexical, BodyAggregate.isLexical, Bool.and_eq_true] at lexical
      simp only [Atom.isPlain, BodyAggregate.isPlain, Bool.and_eq_true] at plain
      obtain ⟨others, shape⟩ := function_cons function
      rw [Atom.write_bodyAggregate]
      refine startsNegation_writeLeft lexical.1.1 plain.1.1 ?_
      rw [shape]
      rintro ⟨⟩

end Start

mutual

theorem Literal.isFaithful_of_isPlain : (literal : Literal) → literal.isLexical = true →
    literal.isPlain = true → (spaced : Bool) → literal.isFaithful spaced = true
  | ⟨sign, atom, _⟩, lexical, plain, spaced => by
      simp only [Literal.isLexical] at lexical
      simp only [Literal.isPlain] at plain
      simp [Literal.isFaithful, startsNegation_atom lexical plain,
        Atom.isFaithful_of_isPlain atom lexical plain]

theorem Literal.areFaithful_of_arePlain : (literals : List Literal) →
    Literal.areLexical literals = true → Literal.arePlain literals = true → (spaced : Bool) →
      Literal.areFaithful spaced literals = true
  | [], _, _, _ => rfl
  | literal :: literals, lexical, plain, spaced => by
      simp only [Literal.areLexical, Bool.and_eq_true] at lexical
      simp only [Literal.arePlain, Bool.and_eq_true] at plain
      simp [Literal.areFaithful, Literal.isFaithful_of_isPlain literal lexical.1 plain.1,
        Literal.areFaithful_of_arePlain literals lexical.2 plain.2]

theorem Atom.isFaithful_of_isPlain : (atom : Atom Literal) → atom.isLexical = true →
    atom.isPlain = true → atom.isFaithful = true
  | .predicate term _, _, plain => Term.isFaithful_of_isPlain term plain
  | .boolean _ _, _, _ => rfl
  | .comparison left _ right _, _, plain => by
      simp only [Atom.isPlain, Bool.and_eq_true] at plain
      simp [Atom.isFaithful, Term.isFaithful_of_isPlain left plain.1,
        Term.isFaithful_of_isPlain right plain.2]
  | .aggregate content, lexical, plain => Aggregate.isFaithful_of_isPlain content lexical plain
  | .bodyAggregate content, lexical, plain =>
      BodyAggregate.isFaithful_of_isPlain content lexical plain

theorem Aggregate.isFaithful_of_isPlain : (aggregate : Aggregate Literal) →
    aggregate.isLexical = true → aggregate.isPlain = true → aggregate.isFaithful = true
  | ⟨left, elements, right, _⟩, lexical, plain => by
      simp only [Aggregate.isLexical, Bool.and_eq_true] at lexical
      simp only [Aggregate.isPlain, Bool.and_eq_true] at plain
      simp [Aggregate.isFaithful, Guard.isFaithful_of_isPlain plain.1.1,
        Guard.isFaithful_of_isPlain plain.2,
        Conditional.areFaithful_of_arePlain elements lexical.1.2 plain.1.2]

theorem BodyAggregate.isFaithful_of_isPlain : (aggregate : BodyAggregate Literal) →
    aggregate.isLexical = true → aggregate.isPlain = true → aggregate.isFaithful = true
  | ⟨_, left, elements, right, _⟩, lexical, plain => by
      simp only [BodyAggregate.isLexical, Bool.and_eq_true] at lexical
      simp only [BodyAggregate.isPlain, Bool.and_eq_true] at plain
      simp [BodyAggregate.isFaithful, Guard.isFaithful_of_isPlain plain.1.1,
        Guard.isFaithful_of_isPlain plain.2,
        Element.areFaithful_of_arePlain elements lexical.1.2 plain.1.2]

theorem Conditional.isFaithful_of_isPlain : (element : Conditional Literal) →
    element.isLexical = true → element.isPlain = true → (spaced : Bool) →
      element.isFaithful spaced = true
  | ⟨literal, condition, _⟩, lexical, plain, spaced => by
      simp only [Conditional.isLexical, Bool.and_eq_true] at lexical
      simp only [Conditional.isPlain, Bool.and_eq_true] at plain
      simp [Conditional.isFaithful, Literal.isFaithful_of_isPlain literal lexical.1 plain.1,
        Literal.areFaithful_of_arePlain condition lexical.2 plain.2]

theorem Conditional.areFaithful_of_arePlain : (elements : List (Conditional Literal)) →
    Conditional.areLexical elements = true → Conditional.arePlain elements = true →
      Conditional.areFaithful elements = true
  | [], _, _ => rfl
  | element :: elements, lexical, plain => by
      simp only [Conditional.areLexical, Bool.and_eq_true] at lexical
      simp only [Conditional.arePlain, Bool.and_eq_true] at plain
      simp [Conditional.areFaithful, Conditional.isFaithful_of_isPlain element lexical.1 plain.1,
        Conditional.areFaithful_of_arePlain elements lexical.2 plain.2]

theorem Element.isFaithful_of_isPlain : (element : Element Literal) → element.isLexical = true →
    element.isPlain = true → (spaced : Bool) → element.isFaithful spaced = true
  | ⟨terms, condition⟩, lexical, plain, spaced => by
      simp only [Element.isLexical, Bool.and_eq_true] at lexical
      simp only [Element.isPlain, Bool.and_eq_true] at plain
      simp [Element.isFaithful, Term.areFaithful_of_arePlain terms plain.1,
        Literal.areFaithful_of_arePlain condition lexical.2 plain.2]

theorem Element.areFaithful_of_arePlain : (elements : List (Element Literal)) →
    Element.areLexical elements = true → Element.arePlain elements = true →
      Element.areFaithful elements = true
  | [], _, _ => rfl
  | element :: elements, lexical, plain => by
      simp only [Element.areLexical, Bool.and_eq_true] at lexical
      simp only [Element.arePlain, Bool.and_eq_true] at plain
      simp [Element.areFaithful, Element.isFaithful_of_isPlain element lexical.1 plain.1,
        Element.areFaithful_of_arePlain elements lexical.2 plain.2]

end

/-! Statements. -/

theorem TheoryAtom.isFaithful_of_isPlain {atom : TheoryAtom} (lexical : atom.isLexical = true)
    (plain : atom.isPlain = true) : atom.isFaithful = true := by
  simp only [TheoryAtom.isLexical, Bool.and_eq_true] at lexical
  simp only [TheoryAtom.isPlain, Bool.and_eq_true] at plain
  simp [TheoryAtom.isFaithful, Term.areFaithful_of_arePlain _ plain.1.1,
    Element.areFaithful_of_arePlain _ lexical.1.2 plain.1.2, Guard.isFaithful_of_isPlain plain.2]

theorem Head.isFaithful_of_isPlain {head : Head} (lexical : head.isLexical = true)
    (plain : head.isPlain = true) (hasBody : Bool) : head.isFaithful hasBody = true := by
  cases head with
  | literal content =>
      obtain ⟨lexical, _⟩ := Head.isLexical_literal lexical
      simp only [Head.isPlain, Bool.and_eq_true] at plain
      obtain ⟨⟨unsigned, unabsorbed⟩, plain⟩ := plain
      have isRead := Literal.isFaithful_of_isPlain content lexical plain hasBody
      obtain ⟨sign, atom, origin⟩ := content
      simp only [Head.isFaithful, isRead, Bool.and_true, Bool.and_eq_true]
      refine ⟨?_, ?_⟩
      · cases hasBody <;> cases sign <;> simp_all
      · cases sign <;> cases atom <;> simp_all [Atom.absorbsNegation, Atom.isAggregate]
  | aggregate content => exact Aggregate.isFaithful_of_isPlain content lexical plain
  | theory content => exact TheoryAtom.isFaithful_of_isPlain lexical plain

theorem BodyElement.isFaithful_of_isPlain {element : BodyElement}
    (lexical : element.isLexical = true) (plain : element.isPlain = true) :
    element.isFaithful = true := by
  cases element with
  | literal content => exact Literal.isFaithful_of_isPlain content lexical plain false
  | conditional content =>
      exact Conditional.isFaithful_of_isPlain content (Bool.and_eq_true_iff.mp lexical).2 plain false
  | theory content => exact TheoryAtom.isFaithful_of_isPlain lexical plain

theorem BodyElement.allFaithful_of_allPlain {body : List BodyElement}
    (lexical : body.all BodyElement.isLexical = true) (plain : body.all BodyElement.isPlain = true) :
    body.all BodyElement.isFaithful = true := by
  rw [List.all_eq_true] at lexical plain ⊢
  intro element member
  exact BodyElement.isFaithful_of_isPlain (lexical element member) (plain element member)

theorem Statement.isFaithful_of_isPlain {statement : Statement}
    (lexical : statement.isLexical = true) (plain : statement.isPlain = true) :
    statement.isFaithful = true := by
  cases statement with
  | rule content =>
      simp only [Statement.isLexical, Bool.and_eq_true] at lexical
      simp only [Statement.isPlain, Bool.and_eq_true] at plain
      simp only [Statement.isFaithful, Head.isFaithful_of_isPlain lexical.1 plain.1,
        BodyElement.allFaithful_of_allPlain lexical.2 plain.2, Bool.and_true]
  | weakConstraint content =>
      simp only [Statement.isLexical, Bool.and_eq_true] at lexical
      simp only [Statement.isPlain, Bool.and_eq_true] at plain
      simp only [Statement.isFaithful, Term.areFaithful_of_arePlain _ plain.2,
        BodyElement.allFaithful_of_allPlain lexical.1.2 plain.1, Bool.and_true]
  | directive content => rfl

/-- The text of a plain program is read as the program. -/
theorem Program.isFaithful_of_isPlain {program : Program} (lexical : program.isLexical = true)
    (plain : program.isPlain = true) : program.isFaithful = true := by
  rw [Program.isFaithful, List.all_eq_true]
  intro statement member
  exact Statement.isFaithful_of_isPlain (List.all_eq_true.mp lexical statement member)
    (List.all_eq_true.mp plain statement member)

end SoftRules
