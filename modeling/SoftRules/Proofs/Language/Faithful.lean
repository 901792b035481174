import SoftRules.Grammar.Statement
import SoftRules.Proofs.Language.Lexical

/-!
Literals and statements that can be written and read.

As with terms, a component is lexical if the grammar has components of its kind, and it is faithful
if nothing in its text is read as something else. Besides negations of numbers there are three more
texts that are: an atom that starts with the word `not` and a blank is read as a negated one, a
head `#false` is left out in front of a body even if it is negated, and in a head a negated aggregate
is read as an aggregate with a bound if the word `not` can be a part of its bound.
-/

set_option autoImplicit false

namespace SoftRules

def Guard.isLexical (guard : Option Guard) : Bool :=
  guard.all fun guard => guard.term.isLexical

def Guard.isFaithful (guard : Option Guard) : Bool :=
  guard.all fun guard => guard.term.isFaithful

/-- The bound that has the same text, without origins. -/
def Guard.reread (guard : Guard) : Guard := { guard with term := guard.term.reread }

theorem Guard.reread_eq_erase_iff (guard : Option Guard) :
    guard.map Guard.reread = guard.map Guard.erase ↔ Guard.isFaithful guard = true := by
  cases guard with
  | none => simp [Guard.isFaithful]
  | some guard => simp [Guard.isFaithful, Guard.reread, Guard.erase, Term.reread_eq_erase_iff]

mutual

def Literal.isLexical : Literal → Bool
  | ⟨_, atom, _⟩ => atom.isLexical

def Literal.areLexical : List Literal → Bool
  | [] => true
  | literal :: literals => literal.isLexical && Literal.areLexical literals

def Atom.isLexical : Atom Literal → Bool
  | .predicate term _ => term.isAtom && term.isLexical
  | .boolean _ _ => true
  | .comparison left _ right _ => left.isLexical && right.isLexical
  | .aggregate content => content.isLexical
  | .bodyAggregate content => content.isLexical

def Aggregate.isLexical : Aggregate Literal → Bool
  | ⟨left, elements, right, _⟩ =>
      Guard.isLexical left && Conditional.areLexical elements && Guard.isLexical right

def BodyAggregate.isLexical : BodyAggregate Literal → Bool
  | ⟨_, left, elements, right, _⟩ =>
      Guard.isLexical left && Element.areLexical elements && Guard.isLexical right

def Conditional.isLexical : Conditional Literal → Bool
  | ⟨literal, condition, _⟩ => literal.isLexical && Literal.areLexical condition

def Conditional.areLexical : List (Conditional Literal) → Bool
  | [] => true
  | element :: elements => element.isLexical && Conditional.areLexical elements

def Element.isLexical : Element Literal → Bool
  | ⟨terms, condition⟩ =>
      !terms.isEmpty && Term.areLexical terms && Literal.areLexical condition

def Element.areLexical : List (Element Literal) → Bool
  | [] => true
  | element :: elements => element.isLexical && Element.areLexical elements

end

theorem Literal.isLexical_eq (literal : Literal) : literal.isLexical = literal.atom.isLexical := by
  obtain ⟨sign, atom, origin⟩ := literal
  rw [Literal.isLexical]

theorem Literal.areLexical_iff (literals : List Literal) :
    Literal.areLexical literals = true ↔ ∀ literal ∈ literals, literal.isLexical = true := by
  induction literals with
  | nil => simp [Literal.areLexical]
  | cons literal literals inductionHypothesis => simp [Literal.areLexical, inductionHypothesis]

theorem Conditional.areLexical_iff (elements : List (Conditional Literal)) :
    Conditional.areLexical elements = true ↔ ∀ element ∈ elements, element.isLexical = true := by
  induction elements with
  | nil => simp [Conditional.areLexical]
  | cons element elements inductionHypothesis =>
      simp [Conditional.areLexical, inductionHypothesis]

theorem Element.areLexical_iff (elements : List (Element Literal)) :
    Element.areLexical elements = true ↔ ∀ element ∈ elements, element.isLexical = true := by
  induction elements with
  | nil => simp [Element.areLexical]
  | cons element elements inductionHypothesis => simp [Element.areLexical, inductionHypothesis]

/-- Whether a text is read as if it started with a default negation. -/
def startsNegation (text : List Char) : Bool :=
  ['n', 'o', 't'].isPrefixOf text && text[3]?.any fun next => Grammar.isSpace next || next == '%'

/-- The blank between a component and a delimiter that does not stand right behind it. -/
def gap (spaced : Bool) : List Char := if spaced then [' '] else []

mutual

/-- Whether a literal is read as it was written. The text behind it starts with a blank if
`spaced`. -/
def Literal.isFaithful (spaced : Bool) : Literal → Bool
  | ⟨sign, atom, _⟩ =>
      (sign == .doublyNegated || !startsNegation (atom.render.toList ++ gap spaced)) &&
        atom.isFaithful

/-- Of several literals only the last one may have a blank behind it. -/
def Literal.areFaithful (spaced : Bool) : List Literal → Bool
  | [] => true
  | literal :: literals =>
      literal.isFaithful (literals.isEmpty && spaced) && Literal.areFaithful spaced literals

def Atom.isFaithful : Atom Literal → Bool
  | .predicate term _ => term.isFaithful
  | .boolean _ _ => true
  | .comparison left _ right _ => left.isFaithful && right.isFaithful
  | .aggregate content => content.isFaithful
  | .bodyAggregate content => content.isFaithful

def Aggregate.isFaithful : Aggregate Literal → Bool
  | ⟨left, elements, right, _⟩ =>
      Guard.isFaithful left && Conditional.areFaithful elements && Guard.isFaithful right

def BodyAggregate.isFaithful : BodyAggregate Literal → Bool
  | ⟨_, left, elements, right, _⟩ =>
      Guard.isFaithful left && Element.areFaithful elements && Guard.isFaithful right

def Conditional.isFaithful (spaced : Bool) : Conditional Literal → Bool
  | ⟨literal, condition, _⟩ =>
      literal.isFaithful (condition.isEmpty && spaced) && Literal.areFaithful spaced condition

/-- A blank stands between the last element and the brace. -/
def Conditional.areFaithful : List (Conditional Literal) → Bool
  | [] => true
  | element :: elements =>
      element.isFaithful elements.isEmpty && Conditional.areFaithful elements

def Element.isFaithful (spaced : Bool) : Element Literal → Bool
  | ⟨terms, condition⟩ => Term.areFaithful terms && Literal.areFaithful spaced condition

def Element.areFaithful : List (Element Literal) → Bool
  | [] => true
  | element :: elements => element.isFaithful elements.isEmpty && Element.areFaithful elements

end

/-! Statements. -/

def TheoryAtom.isLexical (atom : TheoryAtom) : Bool :=
  isName Char.isLower atom.name && Term.areLexical atom.arguments &&
    Element.areLexical atom.elements && Guard.isLexical atom.guard

def TheoryAtom.isFaithful (atom : TheoryAtom) : Bool :=
  Term.areFaithful atom.arguments && Element.areFaithful atom.elements &&
    Guard.isFaithful atom.guard

/-- Aggregates without a sign are heads of a kind of their own. -/
def Head.isLexical : Head → Bool
  | .literal ⟨.plain, .aggregate _, _⟩ => false
  | .literal content => content.isLexical
  | .aggregate content => content.isLexical
  | .theory content => content.isLexical

theorem Head.isLexical_literal {content : Literal}
    (lexical : (Head.literal content).isLexical = true) :
    content.isLexical = true ∧
      (content.sign = .plain → ∀ aggregate, content.atom ≠ .aggregate aggregate) := by
  obtain ⟨sign, atom, origin⟩ := content
  cases sign with
  | plain =>
      cases atom with
      | aggregate content => cases lexical
      | _ => exact ⟨lexical, fun _ _ same => by cases same⟩
  | negated => exact ⟨lexical, fun plain => by cases plain⟩
  | doublyNegated => exact ⟨lexical, fun plain => by cases plain⟩

/-- Whether the text starts with a minus that is read as a difference if a term stands in front of
it. The number behind the minus of the least integer is too large for that. -/
def Term.startsDifference : Term → Bool
  | .symbol (.number value) _ => Number.minInt64 < value && value < 0
  | .operation .negation [_] _ => true
  | .operation operator [left, _] _ =>
      !left.bindsWeakerThan operator false && left.startsDifference
  | _ => false

/-- Whether the word `not` in front of the atom can be read as its bound or as a part of it. -/
def Atom.absorbsNegation : Atom Literal → Bool
  | .aggregate content => content.left.all fun guard => guard.term.startsDifference
  | _ => false

/-- Whether a head is read as it was written. -/
def Head.isFaithful (hasBody : Bool) : Head → Bool
  | .literal content =>
      !(hasBody && content.sign != .plain && content.atom.isFalse) &&
        !(content.sign == .negated && content.atom.absorbsNegation) && content.isFaithful hasBody
  | .aggregate content => content.isFaithful
  | .theory content => content.isFaithful

def BodyElement.isLexical : BodyElement → Bool
  | .literal content => content.isLexical
  | .conditional content => !content.condition.isEmpty && content.isLexical
  | .theory content => content.isLexical

def BodyElement.isFaithful : BodyElement → Bool
  | .literal content => content.isFaithful false
  | .conditional content => content.isFaithful false
  | .theory content => content.isFaithful

/-- Whether the text starts with the name of a directive and goes on to the first period that can
end one. -/
def Directive.isLexical (directive : Directive) : Bool :=
  match directive.text.toList with
  | '#' :: text =>
      let name := text.takeWhile Char.isAlpha
      let content := text.dropWhile Char.isAlpha
      !name.isEmpty && !Grammar.isReserved (String.ofList name) &&
        Parser.partBefore? Grammar.endsDirective (content ++ ['.', '\n']) == some content &&
        Text.trim directive.text.toList == directive.text.toList
  | _ => false

def Statement.isLexical : Statement → Bool
  | .rule content => content.head.isLexical && content.body.all BodyElement.isLexical
  | .weakConstraint content =>
      !content.body.isEmpty && content.body.all BodyElement.isLexical &&
        Term.areLexical (content.weight :: content.priority :: content.terms)
  | .directive content => content.isLexical

def Statement.isFaithful : Statement → Bool
  | .rule content =>
      content.head.isFaithful (!content.body.isEmpty) && content.body.all BodyElement.isFaithful
  | .weakConstraint content =>
      content.body.all BodyElement.isFaithful &&
        Term.areFaithful (content.weight :: content.priority :: content.terms)
  | .directive _ => true

/-- Whether all statements are of the kinds that the grammar has. -/
def Program.isLexical (program : Program) : Bool := program.all Statement.isLexical

/-- Whether the text of the program is read as the program. -/
def Program.isFaithful (program : Program) : Bool := program.all Statement.isFaithful

end SoftRules
