import SoftRules.Language.Statement

/-!
Replacing the variables of a component by their images, and nothing else: names, signs, operators
and origins stay. Replacement is functorial: the identity changes nothing, and two replacements in
a row are one.
-/

set_option autoImplicit false

namespace SoftRules

section Substitute

variable (replace : Variable → Variable)

mutual

def Term.substitute : Term → Term
  | .var x => .var (replace x)
  | .symbol value origin => .symbol value origin
  | .function name arguments origin => .function name (Term.substituteAll arguments) origin
  | .operation operator operands origin => .operation operator (Term.substituteAll operands) origin

def Term.substituteAll : List Term → List Term
  | [] => []
  | term :: terms => term.substitute :: Term.substituteAll terms

end

def Guard.substitute (guard : Guard) : Guard :=
  { guard with term := guard.term.substitute replace }

mutual

def Literal.substitute : Literal → Literal
  | ⟨sign, atom, origin⟩ => ⟨sign, atom.substitute, origin⟩

def Literal.substituteAll : List Literal → List Literal
  | [] => []
  | literal :: literals => literal.substitute :: Literal.substituteAll literals

def Atom.substitute : Atom Literal → Atom Literal
  | .predicate term origin => .predicate (term.substitute replace) origin
  | .boolean value origin => .boolean value origin
  | .comparison left relation right origin =>
      .comparison (left.substitute replace) relation (right.substitute replace) origin
  | .aggregate content => .aggregate content.substitute
  | .bodyAggregate content => .bodyAggregate content.substitute

def Aggregate.substitute : Aggregate Literal → Aggregate Literal
  | ⟨left, elements, right, origin⟩ =>
      ⟨left.map (Guard.substitute replace), Conditional.substituteAll elements,
        right.map (Guard.substitute replace), origin⟩

def BodyAggregate.substitute : BodyAggregate Literal → BodyAggregate Literal
  | ⟨function, left, elements, right, origin⟩ =>
      ⟨function, left.map (Guard.substitute replace), Element.substituteAll elements,
        right.map (Guard.substitute replace), origin⟩

def Conditional.substitute : Conditional Literal → Conditional Literal
  | ⟨literal, condition, origin⟩ =>
      ⟨literal.substitute, Literal.substituteAll condition, origin⟩

def Conditional.substituteAll : List (Conditional Literal) → List (Conditional Literal)
  | [] => []
  | element :: elements => element.substitute :: Conditional.substituteAll elements

def Element.substitute : Element Literal → Element Literal
  | ⟨terms, condition⟩ => ⟨Term.substituteAll replace terms, Literal.substituteAll condition⟩

def Element.substituteAll : List (Element Literal) → List (Element Literal)
  | [] => []
  | element :: elements => element.substitute :: Element.substituteAll elements

end

def TheoryAtom.substitute (atom : TheoryAtom) : TheoryAtom :=
  { atom with
    arguments := Term.substituteAll replace atom.arguments
    elements := Element.substituteAll replace atom.elements
    guard := atom.guard.map (Guard.substitute replace) }

def Head.substitute : Head → Head
  | .literal content => .literal (content.substitute replace)
  | .aggregate content => .aggregate (content.substitute replace)
  | .theory content => .theory (content.substitute replace)

def BodyElement.substitute : BodyElement → BodyElement
  | .literal content => .literal (content.substitute replace)
  | .conditional content => .conditional (content.substitute replace)
  | .theory content => .theory (content.substitute replace)

def Rule.substitute (rule : Rule) : Rule :=
  { rule with
    head := rule.head.substitute replace
    body := rule.body.map (BodyElement.substitute replace) }

def WeakConstraint.substitute (constraint : WeakConstraint) : WeakConstraint :=
  { constraint with
    body := constraint.body.map (BodyElement.substitute replace)
    weight := constraint.weight.substitute replace
    priority := constraint.priority.substitute replace
    terms := Term.substituteAll replace constraint.terms }

def Statement.substitute : Statement → Statement
  | .rule content => .rule (content.substitute replace)
  | .weakConstraint content => .weakConstraint (content.substitute replace)
  | .directive content => .directive content

end Substitute

/-! The identity changes nothing. -/

mutual

theorem Term.substitute_id : (term : Term) → term.substitute id = term
  | .var _ => by simp [Term.substitute]
  | .symbol _ _ => by simp [Term.substitute]
  | .function _ arguments _ => by simp [Term.substitute, Term.substituteAll_id arguments]
  | .operation _ operands _ => by simp [Term.substitute, Term.substituteAll_id operands]

theorem Term.substituteAll_id : (terms : List Term) → Term.substituteAll id terms = terms
  | [] => rfl
  | term :: terms => by
      simp [Term.substituteAll, Term.substitute_id term, Term.substituteAll_id terms]

end

theorem Guard.substitute_id : Guard.substitute id = id := by
  funext guard
  simp [Guard.substitute, Term.substitute_id]

mutual

theorem Literal.substitute_id : (literal : Literal) → literal.substitute id = literal
  | ⟨_, atom, _⟩ => by simp [Literal.substitute, Atom.substitute_id atom]

theorem Literal.substituteAll_id : (literals : List Literal) →
    Literal.substituteAll id literals = literals
  | [] => rfl
  | literal :: literals => by
      simp [Literal.substituteAll, Literal.substitute_id literal,
        Literal.substituteAll_id literals]

theorem Atom.substitute_id : (atom : Atom Literal) → atom.substitute id = atom
  | .predicate _ _ => by simp [Atom.substitute, Term.substitute_id]
  | .boolean _ _ => by simp [Atom.substitute]
  | .comparison _ _ _ _ => by simp [Atom.substitute, Term.substitute_id]
  | .aggregate content => by simp [Atom.substitute, Aggregate.substitute_id content]
  | .bodyAggregate content => by simp [Atom.substitute, BodyAggregate.substitute_id content]

theorem Aggregate.substitute_id : (aggregate : Aggregate Literal) →
    aggregate.substitute id = aggregate
  | ⟨_, elements, _, _⟩ => by
      simp [Aggregate.substitute, Guard.substitute_id, Conditional.substituteAll_id elements]

theorem BodyAggregate.substitute_id : (aggregate : BodyAggregate Literal) →
    aggregate.substitute id = aggregate
  | ⟨_, _, elements, _, _⟩ => by
      simp [BodyAggregate.substitute, Guard.substitute_id, Element.substituteAll_id elements]

theorem Conditional.substitute_id : (element : Conditional Literal) →
    element.substitute id = element
  | ⟨literal, condition, _⟩ => by
      simp [Conditional.substitute, Literal.substitute_id literal,
        Literal.substituteAll_id condition]

theorem Conditional.substituteAll_id : (elements : List (Conditional Literal)) →
    Conditional.substituteAll id elements = elements
  | [] => rfl
  | element :: elements => by
      simp [Conditional.substituteAll, Conditional.substitute_id element,
        Conditional.substituteAll_id elements]

theorem Element.substitute_id : (element : Element Literal) → element.substitute id = element
  | ⟨terms, condition⟩ => by
      simp [Element.substitute, Term.substituteAll_id terms, Literal.substituteAll_id condition]

theorem Element.substituteAll_id : (elements : List (Element Literal)) →
    Element.substituteAll id elements = elements
  | [] => rfl
  | element :: elements => by
      simp [Element.substituteAll, Element.substitute_id element,
        Element.substituteAll_id elements]

end

theorem TheoryAtom.substitute_id (atom : TheoryAtom) : atom.substitute id = atom := by
  simp [TheoryAtom.substitute, Term.substituteAll_id, Element.substituteAll_id,
    Guard.substitute_id]

theorem Head.substitute_id (head : Head) : head.substitute id = head := by
  cases head <;>
    simp [Head.substitute, Literal.substitute_id, Aggregate.substitute_id,
      TheoryAtom.substitute_id]

theorem BodyElement.substitute_id : BodyElement.substitute id = id := by
  funext element
  cases element <;>
    simp [BodyElement.substitute, Literal.substitute_id, Conditional.substitute_id,
      TheoryAtom.substitute_id]

theorem Statement.substitute_id (statement : Statement) : statement.substitute id = statement := by
  cases statement <;>
    simp [Statement.substitute, Rule.substitute, WeakConstraint.substitute, Head.substitute_id,
      BodyElement.substitute_id, Term.substitute_id, Term.substituteAll_id]

/-! Two replacements in a row are one. -/

section Composition

variable (first second : Variable → Variable)

mutual

theorem Term.substitute_substitute : (term : Term) →
    (term.substitute first).substitute second = term.substitute (second ∘ first)
  | .var _ => by simp [Term.substitute]
  | .symbol _ _ => by simp [Term.substitute]
  | .function _ arguments _ => by
      simp [Term.substitute, Term.substituteAll_substituteAll arguments]
  | .operation _ operands _ => by
      simp [Term.substitute, Term.substituteAll_substituteAll operands]

theorem Term.substituteAll_substituteAll : (terms : List Term) →
    Term.substituteAll second (Term.substituteAll first terms) =
      Term.substituteAll (second ∘ first) terms
  | [] => rfl
  | term :: terms => by
      simp [Term.substituteAll, Term.substitute_substitute term,
        Term.substituteAll_substituteAll terms]

end

theorem Guard.substitute_comp :
    Guard.substitute second ∘ Guard.substitute first = Guard.substitute (second ∘ first) := by
  funext guard
  simp [Guard.substitute, Term.substitute_substitute]

mutual

theorem Literal.substitute_substitute : (literal : Literal) →
    (literal.substitute first).substitute second = literal.substitute (second ∘ first)
  | ⟨_, atom, _⟩ => by simp [Literal.substitute, Atom.substitute_substitute atom]

theorem Literal.substituteAll_substituteAll : (literals : List Literal) →
    Literal.substituteAll second (Literal.substituteAll first literals) =
      Literal.substituteAll (second ∘ first) literals
  | [] => rfl
  | literal :: literals => by
      simp [Literal.substituteAll, Literal.substitute_substitute literal,
        Literal.substituteAll_substituteAll literals]

theorem Atom.substitute_substitute : (atom : Atom Literal) →
    (atom.substitute first).substitute second = atom.substitute (second ∘ first)
  | .predicate _ _ => by simp [Atom.substitute, Term.substitute_substitute]
  | .boolean _ _ => by simp [Atom.substitute]
  | .comparison _ _ _ _ => by simp [Atom.substitute, Term.substitute_substitute]
  | .aggregate content => by simp [Atom.substitute, Aggregate.substitute_substitute content]
  | .bodyAggregate content => by
      simp [Atom.substitute, BodyAggregate.substitute_substitute content]

theorem Aggregate.substitute_substitute : (aggregate : Aggregate Literal) →
    (aggregate.substitute first).substitute second = aggregate.substitute (second ∘ first)
  | ⟨_, elements, _, _⟩ => by
      simp [Aggregate.substitute, Guard.substitute_comp,
        Conditional.substituteAll_substituteAll elements]

theorem BodyAggregate.substitute_substitute : (aggregate : BodyAggregate Literal) →
    (aggregate.substitute first).substitute second = aggregate.substitute (second ∘ first)
  | ⟨_, _, elements, _, _⟩ => by
      simp [BodyAggregate.substitute, Guard.substitute_comp,
        Element.substituteAll_substituteAll elements]

theorem Conditional.substitute_substitute : (element : Conditional Literal) →
    (element.substitute first).substitute second = element.substitute (second ∘ first)
  | ⟨literal, condition, _⟩ => by
      simp [Conditional.substitute, Literal.substitute_substitute literal,
        Literal.substituteAll_substituteAll condition]

theorem Conditional.substituteAll_substituteAll : (elements : List (Conditional Literal)) →
    Conditional.substituteAll second (Conditional.substituteAll first elements) =
      Conditional.substituteAll (second ∘ first) elements
  | [] => rfl
  | element :: elements => by
      simp [Conditional.substituteAll, Conditional.substitute_substitute element,
        Conditional.substituteAll_substituteAll elements]

theorem Element.substitute_substitute : (element : Element Literal) →
    (element.substitute first).substitute second = element.substitute (second ∘ first)
  | ⟨terms, condition⟩ => by
      simp [Element.substitute, Term.substituteAll_substituteAll first second terms,
        Literal.substituteAll_substituteAll condition]

theorem Element.substituteAll_substituteAll : (elements : List (Element Literal)) →
    Element.substituteAll second (Element.substituteAll first elements) =
      Element.substituteAll (second ∘ first) elements
  | [] => rfl
  | element :: elements => by
      simp [Element.substituteAll, Element.substitute_substitute element,
        Element.substituteAll_substituteAll elements]

end

theorem TheoryAtom.substitute_substitute (atom : TheoryAtom) :
    (atom.substitute first).substitute second = atom.substitute (second ∘ first) := by
  simp [TheoryAtom.substitute, Term.substituteAll_substituteAll,
    Element.substituteAll_substituteAll, Guard.substitute_comp]

theorem Head.substitute_substitute (head : Head) :
    (head.substitute first).substitute second = head.substitute (second ∘ first) := by
  cases head <;>
    simp [Head.substitute, Literal.substitute_substitute, Aggregate.substitute_substitute,
      TheoryAtom.substitute_substitute]

theorem BodyElement.substitute_comp :
    BodyElement.substitute second ∘ BodyElement.substitute first =
      BodyElement.substitute (second ∘ first) := by
  funext element
  cases element <;>
    simp [BodyElement.substitute, Literal.substitute_substitute,
      Conditional.substitute_substitute, TheoryAtom.substitute_substitute]

theorem Statement.substitute_substitute (statement : Statement) :
    (statement.substitute first).substitute second = statement.substitute (second ∘ first) := by
  cases statement <;>
    simp [Statement.substitute, Rule.substitute, WeakConstraint.substitute,
      Head.substitute_substitute, BodyElement.substitute_comp, Term.substitute_substitute,
      Term.substituteAll_substituteAll]

end Composition

end SoftRules
