import SoftRules.Language.Equality
import SoftRules.Language.Kind
import SoftRules.Language.Printer

/-!
Erasing the origins of a component. Two components are the same exactly if they are equal once
their origins are erased. The origins show neither in the text of a component nor in what it
consists of.
-/

set_option autoImplicit false

namespace SoftRules

def Variable.erase (x : Variable) : Variable := { name := x.name }

mutual

def Term.erase : Term → Term
  | .var x => .var x.erase
  | .symbol value _ => .symbol value
  | .function name arguments _ => .function name (Term.eraseAll arguments)
  | .operation operator operands _ => .operation operator (Term.eraseAll operands)

def Term.eraseAll : List Term → List Term
  | [] => []
  | term :: terms => term.erase :: Term.eraseAll terms

end

def Guard.erase (guard : Guard) : Guard := { guard with term := guard.term.erase }

mutual

def Literal.erase : Literal → Literal
  | ⟨sign, atom, _⟩ => ⟨sign, atom.erase, none⟩

def Literal.eraseAll : List Literal → List Literal
  | [] => []
  | literal :: literals => literal.erase :: Literal.eraseAll literals

def Atom.erase : Atom Literal → Atom Literal
  | .predicate term _ => .predicate term.erase
  | .boolean value _ => .boolean value
  | .comparison left relation right _ => .comparison left.erase relation right.erase
  | .aggregate content => .aggregate content.erase
  | .bodyAggregate content => .bodyAggregate content.erase

def Aggregate.erase : Aggregate Literal → Aggregate Literal
  | ⟨left, elements, right, _⟩ =>
      ⟨left.map Guard.erase, Conditional.eraseAll elements, right.map Guard.erase, none⟩

def BodyAggregate.erase : BodyAggregate Literal → BodyAggregate Literal
  | ⟨function, left, elements, right, _⟩ =>
      ⟨function, left.map Guard.erase, Element.eraseAll elements, right.map Guard.erase, none⟩

def Conditional.erase : Conditional Literal → Conditional Literal
  | ⟨literal, condition, _⟩ => ⟨literal.erase, Literal.eraseAll condition, none⟩

def Conditional.eraseAll : List (Conditional Literal) → List (Conditional Literal)
  | [] => []
  | element :: elements => element.erase :: Conditional.eraseAll elements

def Element.erase : Element Literal → Element Literal
  | ⟨terms, condition⟩ => ⟨Term.eraseAll terms, Literal.eraseAll condition⟩

def Element.eraseAll : List (Element Literal) → List (Element Literal)
  | [] => []
  | element :: elements => element.erase :: Element.eraseAll elements

end

def TheoryAtom.erase (atom : TheoryAtom) : TheoryAtom where
  name := atom.name
  arguments := Term.eraseAll atom.arguments
  elements := Element.eraseAll atom.elements
  guard := atom.guard.map Guard.erase

def Head.erase : Head → Head
  | literal content => literal content.erase
  | aggregate content => aggregate content.erase
  | theory content => theory content.erase

def BodyElement.erase : BodyElement → BodyElement
  | literal content => literal content.erase
  | conditional content => conditional content.erase
  | theory content => theory content.erase

def Rule.erase (rule : Rule) : Rule where
  head := rule.head.erase
  body := rule.body.map BodyElement.erase

def WeakConstraint.erase (constraint : WeakConstraint) : WeakConstraint where
  body := constraint.body.map BodyElement.erase
  weight := constraint.weight.erase
  priority := constraint.priority.erase
  terms := Term.eraseAll constraint.terms

def Directive.erase (directive : Directive) : Directive := { text := directive.text }

def Statement.erase : Statement → Statement
  | rule content => rule content.erase
  | weakConstraint content => weakConstraint content.erase
  | directive content => directive content.erase

def Program.erase (program : Program) : Program := program.map Statement.erase

theorem Term.eraseAll_eq (terms : List Term) : Term.eraseAll terms = terms.map Term.erase := by
  induction terms with
  | nil => rfl
  | cons term terms inductionHypothesis => rw [Term.eraseAll, inductionHypothesis, List.map_cons]

theorem Literal.eraseAll_eq (literals : List Literal) :
    Literal.eraseAll literals = literals.map Literal.erase := by
  induction literals with
  | nil => rfl
  | cons literal literals inductionHypothesis =>
      rw [Literal.eraseAll, inductionHypothesis, List.map_cons]

theorem Conditional.eraseAll_eq (elements : List (Conditional Literal)) :
    Conditional.eraseAll elements = elements.map Conditional.erase := by
  induction elements with
  | nil => rfl
  | cons element elements inductionHypothesis =>
      rw [Conditional.eraseAll, inductionHypothesis, List.map_cons]

theorem Element.eraseAll_eq (elements : List (Element Literal)) :
    Element.eraseAll elements = elements.map Element.erase := by
  induction elements with
  | nil => rfl
  | cons element elements inductionHypothesis =>
      rw [Element.eraseAll, inductionHypothesis, List.map_cons]

/-! Erasure forgets where a component was read. -/

theorem Variable.erase_relocate (origin : Origin) (x : Variable) :
    (Located.relocate origin x).erase = x.erase := rfl

theorem Term.erase_relocate (origin : Origin) (term : Term) :
    (Located.relocate origin term).erase = term.erase := by
  cases term <;> rfl

theorem Literal.erase_relocate (origin : Origin) (literal : Literal) :
    (Located.relocate origin literal).erase = literal.erase := by
  cases literal
  rfl

theorem Aggregate.erase_relocate (origin : Origin) (aggregate : Aggregate Literal) :
    (Located.relocate origin aggregate).erase = aggregate.erase := by
  cases aggregate
  rfl

theorem BodyAggregate.erase_relocate (origin : Origin) (aggregate : BodyAggregate Literal) :
    (Located.relocate origin aggregate).erase = aggregate.erase := by
  cases aggregate
  rfl

theorem Conditional.erase_relocate (origin : Origin) (element : Conditional Literal) :
    (Located.relocate origin element).erase = element.erase := by
  cases element
  rfl

theorem Atom.erase_relocate (origin : Origin) (atom : Atom Literal) :
    (Located.relocate origin atom).erase = atom.erase := by
  cases atom with
  | aggregate content => exact congrArg Atom.aggregate (content.erase_relocate origin)
  | bodyAggregate content => exact congrArg Atom.bodyAggregate (content.erase_relocate origin)
  | _ => rfl

theorem TheoryAtom.erase_relocate (origin : Origin) (atom : TheoryAtom) :
    (Located.relocate origin atom).erase = atom.erase := rfl

theorem WeakConstraint.erase_relocate (origin : Origin) (constraint : WeakConstraint) :
    (Located.relocate origin constraint).erase = constraint.erase := rfl

/-! Sameness is equality after erasure. -/

theorem Variable.same_iff (x y : Variable) : x.same y = true ↔ x.erase = y.erase := by
  simp [Variable.same, Variable.erase]

mutual

theorem Term.same_iff : (first second : Term) →
    (first.same second = true ↔ first.erase = second.erase)
  | .var x, second => by
      cases second with
      | var y => simp [Term.same, Term.erase, Variable.same_iff]
      | _ => simp [Term.same, Term.erase]
  | .symbol value _, second => by
      cases second with
      | symbol other _ => simp [Term.same, Term.erase]
      | _ => simp [Term.same, Term.erase]
  | .function name arguments _, second => by
      cases second with
      | function other others _ =>
          simp [Term.same, Term.erase, Term.sameAll_iff arguments others]
      | _ => simp [Term.same, Term.erase]
  | .operation operator operands _, second => by
      cases second with
      | operation other others _ =>
          simp [Term.same, Term.erase, Term.sameAll_iff operands others]
      | _ => simp [Term.same, Term.erase]

theorem Term.sameAll_iff : (first second : List Term) →
    (Term.sameAll first second = true ↔ Term.eraseAll first = Term.eraseAll second)
  | [], second => by cases second <;> simp [Term.sameAll, Term.eraseAll]
  | term :: terms, second => by
      cases second with
      | nil => simp [Term.sameAll, Term.eraseAll]
      | cons other others =>
          simp [Term.sameAll, Term.eraseAll, Term.same_iff term other,
            Term.sameAll_iff terms others]

end

theorem Guard.same_iff (first second : Guard) :
    first.same second = true ↔ first.erase = second.erase := by
  simp [Guard.same, Guard.erase, Term.same_iff]

theorem Guard.sameOption_iff (first second : Option Guard) :
    Guard.sameOption first second = true ↔ first.map Guard.erase = second.map Guard.erase := by
  cases first <;> cases second <;> simp [Guard.sameOption, Guard.same_iff]

mutual

theorem Literal.same_iff : (first second : Literal) →
    (first.same second = true ↔ first.erase = second.erase)
  | ⟨sign, atom, _⟩, ⟨sign', atom', _⟩ => by
      simp [Literal.same, Literal.erase, Atom.same_iff atom atom']

theorem Literal.sameAll_iff : (first second : List Literal) →
    (Literal.sameAll first second = true ↔ Literal.eraseAll first = Literal.eraseAll second)
  | [], second => by cases second <;> simp [Literal.sameAll, Literal.eraseAll]
  | literal :: literals, second => by
      cases second with
      | nil => simp [Literal.sameAll, Literal.eraseAll]
      | cons other others =>
          simp [Literal.sameAll, Literal.eraseAll, Literal.same_iff literal other,
            Literal.sameAll_iff literals others]

theorem Atom.same_iff : (first second : Atom Literal) →
    (first.same second = true ↔ first.erase = second.erase)
  | .predicate term _, second => by
      cases second with
      | predicate other _ => simp [Atom.same, Atom.erase, Term.same_iff]
      | _ => simp [Atom.same, Atom.erase]
  | .boolean value _, second => by
      cases second with
      | boolean other _ => simp [Atom.same, Atom.erase]
      | _ => simp [Atom.same, Atom.erase]
  | .comparison left relation right _, second => by
      cases second with
      | comparison left' relation' right' _ =>
          simp [Atom.same, Atom.erase, Term.same_iff, and_assoc]
      | _ => simp [Atom.same, Atom.erase]
  | .aggregate content, second => by
      cases second with
      | aggregate other => simp [Atom.same, Atom.erase, Aggregate.same_iff content other]
      | _ => simp [Atom.same, Atom.erase]
  | .bodyAggregate content, second => by
      cases second with
      | bodyAggregate other => simp [Atom.same, Atom.erase, BodyAggregate.same_iff content other]
      | _ => simp [Atom.same, Atom.erase]

theorem Aggregate.same_iff : (first second : Aggregate Literal) →
    (first.same second = true ↔ first.erase = second.erase)
  | ⟨left, elements, right, _⟩, ⟨left', elements', right', _⟩ => by
      simp [Aggregate.same, Aggregate.erase, Guard.sameOption_iff,
        Conditional.sameAll_iff elements elements', and_assoc]

theorem BodyAggregate.same_iff : (first second : BodyAggregate Literal) →
    (first.same second = true ↔ first.erase = second.erase)
  | ⟨function, left, elements, right, _⟩, ⟨function', left', elements', right', _⟩ => by
      simp [BodyAggregate.same, BodyAggregate.erase, Guard.sameOption_iff,
        Element.sameAll_iff elements elements', and_assoc]

theorem Conditional.same_iff : (first second : Conditional Literal) →
    (first.same second = true ↔ first.erase = second.erase)
  | ⟨literal, condition, _⟩, ⟨literal', condition', _⟩ => by
      simp [Conditional.same, Conditional.erase, Literal.same_iff literal literal',
        Literal.sameAll_iff condition condition']

theorem Conditional.sameAll_iff : (first second : List (Conditional Literal)) →
    (Conditional.sameAll first second = true ↔
      Conditional.eraseAll first = Conditional.eraseAll second)
  | [], second => by cases second <;> simp [Conditional.sameAll, Conditional.eraseAll]
  | element :: elements, second => by
      cases second with
      | nil => simp [Conditional.sameAll, Conditional.eraseAll]
      | cons other others =>
          simp [Conditional.sameAll, Conditional.eraseAll, Conditional.same_iff element other,
            Conditional.sameAll_iff elements others]

theorem Element.same_iff : (first second : Element Literal) →
    (first.same second = true ↔ first.erase = second.erase)
  | ⟨terms, condition⟩, ⟨terms', condition'⟩ => by
      simp [Element.same, Element.erase, Term.sameAll_iff,
        Literal.sameAll_iff condition condition']

theorem Element.sameAll_iff : (first second : List (Element Literal)) →
    (Element.sameAll first second = true ↔ Element.eraseAll first = Element.eraseAll second)
  | [], second => by cases second <;> simp [Element.sameAll, Element.eraseAll]
  | element :: elements, second => by
      cases second with
      | nil => simp [Element.sameAll, Element.eraseAll]
      | cons other others =>
          simp [Element.sameAll, Element.eraseAll, Element.same_iff element other,
            Element.sameAll_iff elements others]

end

theorem TheoryAtom.same_iff (first second : TheoryAtom) :
    first.same second = true ↔ first.erase = second.erase := by
  simp [TheoryAtom.same, TheoryAtom.erase, Term.sameAll_iff, Element.sameAll_iff,
    Guard.sameOption_iff, and_assoc]

theorem Head.same_iff (first second : Head) :
    first.same second = true ↔ first.erase = second.erase := by
  cases first <;> cases second <;>
    simp [Head.same, Head.erase, Literal.same_iff, Aggregate.same_iff, TheoryAtom.same_iff]

theorem BodyElement.same_iff (first second : BodyElement) :
    first.same second = true ↔ first.erase = second.erase := by
  cases first <;> cases second <;>
    simp [BodyElement.same, BodyElement.erase, Literal.same_iff, Conditional.same_iff,
      TheoryAtom.same_iff]

theorem BodyElement.sameAll_iff (first second : List BodyElement) :
    BodyElement.sameAll first second = true ↔
      first.map BodyElement.erase = second.map BodyElement.erase := by
  induction first generalizing second with
  | nil => cases second <;> simp [BodyElement.sameAll]
  | cons element body inductionHypothesis =>
      cases second with
      | nil => simp [BodyElement.sameAll]
      | cons other others =>
          simp [BodyElement.sameAll, BodyElement.same_iff, inductionHypothesis]

theorem Rule.same_iff (first second : Rule) :
    first.same second = true ↔ first.erase = second.erase := by
  simp [Rule.same, Rule.erase, Head.same_iff, BodyElement.sameAll_iff]

theorem WeakConstraint.same_iff (first second : WeakConstraint) :
    first.same second = true ↔ first.erase = second.erase := by
  simp only [WeakConstraint.same, WeakConstraint.erase, Bool.and_eq_true, Term.same_iff,
    Term.sameAll_iff, BodyElement.sameAll_iff, WeakConstraint.mk.injEq, and_true]
  constructor
  · rintro ⟨⟨⟨weight, priority⟩, terms⟩, body⟩
    exact ⟨body, weight, priority, terms⟩
  · rintro ⟨body, weight, priority, terms⟩
    exact ⟨⟨⟨weight, priority⟩, terms⟩, body⟩

theorem Statement.same_iff (first second : Statement) :
    first.same second = true ↔ first.erase = second.erase := by
  cases first <;> cases second <;>
    simp [Statement.same, Statement.erase, Rule.same_iff, WeakConstraint.same_iff,
      Directive.same, Directive.erase]

theorem Program.same_iff (first second : Program) :
    first.same second = true ↔ first.erase = second.erase := by
  induction first generalizing second with
  | nil => cases second <;> simp [Program.same, Program.erase]
  | cons statement program inductionHypothesis =>
      cases second with
      | nil => simp [Program.same, Program.erase]
      | cons other others =>
          simp only [Program.erase] at inductionHypothesis
          simp [Program.same, Program.erase, Statement.same_iff, inductionHypothesis]

/-! Origins do not show. -/

theorem Term.operator?_erase (term : Term) : term.erase.operator? = term.operator? := by
  cases term <;> rfl

mutual

theorem Term.render_erase : (term : Term) → term.erase.render = term.render
  | .var _ => by simp [Term.erase, Term.render, Variable.erase]
  | .symbol _ _ => by simp [Term.erase, Term.render]
  | .function name arguments _ => by
      have count : (Term.eraseAll arguments).length = arguments.length :=
        Term.length_eraseAll arguments
      have isEmpty : (Term.eraseAll arguments).isEmpty = arguments.isEmpty := by
        cases arguments <;> rfl
      simp only [Term.erase, Term.render, Term.renderAll_eraseAll arguments, count, isEmpty]
  | .operation operator [] _ => by simp [Term.erase, Term.eraseAll, Term.render, Term.renderAll]
  | .operation operator [operand] _ => by
      simp [Term.erase, Term.eraseAll, Term.render, Term.render_erase operand,
        Term.bindsWeakerThanUnary, Term.operator?_erase]
  | .operation operator [left, right] _ => by
      simp [Term.erase, Term.eraseAll, Term.render, Term.render_erase left,
        Term.render_erase right, Term.bindsWeakerThan, Term.operator?_erase]
  | .operation operator (first :: second :: third :: others) _ => by
      simp [Term.erase, Term.eraseAll, Term.render, Term.renderAll, Term.render_erase first,
        Term.render_erase second, Term.render_erase third, Term.renderAll_eraseAll others]

theorem Term.renderAll_eraseAll : (terms : List Term) →
    Term.renderAll (Term.eraseAll terms) = Term.renderAll terms
  | [] => rfl
  | term :: terms => by
      simp [Term.eraseAll, Term.renderAll, Term.render_erase term, Term.renderAll_eraseAll terms]

theorem Term.length_eraseAll : (terms : List Term) → (Term.eraseAll terms).length = terms.length
  | [] => rfl
  | _ :: terms => by simp [Term.eraseAll, Term.length_eraseAll terms]

end

theorem Guard.renderLeft_erase (guard : Option Guard) :
    Guard.renderLeft (guard.map Guard.erase) = Guard.renderLeft guard := by
  cases guard <;> simp [Guard.renderLeft, Guard.erase, Term.render_erase]

theorem Guard.renderRight_erase (guard : Option Guard) :
    Guard.renderRight (guard.map Guard.erase) = Guard.renderRight guard := by
  cases guard <;> simp [Guard.renderRight, Guard.erase, Term.render_erase]

mutual

theorem Literal.render_erase : (literal : Literal) → literal.erase.render = literal.render
  | ⟨_, atom, _⟩ => by simp [Literal.erase, Literal.render, Atom.render_erase atom]

theorem Literal.renderAll_eraseAll : (literals : List Literal) →
    Literal.renderAll (Literal.eraseAll literals) = Literal.renderAll literals
  | [] => rfl
  | literal :: literals => by
      simp [Literal.eraseAll, Literal.renderAll, Literal.render_erase literal,
        Literal.renderAll_eraseAll literals]

theorem Atom.render_erase : (atom : Atom Literal) → atom.erase.render = atom.render
  | .predicate _ _ => by simp [Atom.erase, Atom.render, Term.render_erase]
  | .boolean _ _ => by simp [Atom.erase, Atom.render]
  | .comparison _ _ _ _ => by simp [Atom.erase, Atom.render, Term.render_erase]
  | .aggregate content => by simp [Atom.erase, Atom.render, Aggregate.render_erase content]
  | .bodyAggregate content => by
      simp [Atom.erase, Atom.render, BodyAggregate.render_erase content]

theorem Aggregate.render_erase : (aggregate : Aggregate Literal) →
    aggregate.erase.render = aggregate.render
  | ⟨_, elements, _, _⟩ => by
      simp [Aggregate.erase, Aggregate.render, Guard.renderLeft_erase, Guard.renderRight_erase,
        Conditional.renderAll_eraseAll elements]

theorem BodyAggregate.render_erase : (aggregate : BodyAggregate Literal) →
    aggregate.erase.render = aggregate.render
  | ⟨_, _, elements, _, _⟩ => by
      simp [BodyAggregate.erase, BodyAggregate.render, Guard.renderLeft_erase,
        Guard.renderRight_erase, Element.renderAll_eraseAll elements]

theorem Conditional.render_erase : (element : Conditional Literal) →
    element.erase.render = element.render
  | ⟨literal, condition, _⟩ => by
      simp [Conditional.erase, Conditional.render, Literal.render_erase literal,
        Literal.renderAll_eraseAll condition]

theorem Conditional.renderAll_eraseAll : (elements : List (Conditional Literal)) →
    Conditional.renderAll (Conditional.eraseAll elements) = Conditional.renderAll elements
  | [] => rfl
  | element :: elements => by
      simp [Conditional.eraseAll, Conditional.renderAll, Conditional.render_erase element,
        Conditional.renderAll_eraseAll elements]

theorem Element.render_erase : (element : Element Literal) →
    element.erase.render = element.render
  | ⟨_, condition⟩ => by
      simp [Element.erase, Element.render, Term.renderAll_eraseAll,
        Literal.renderAll_eraseAll condition]

theorem Element.renderAll_eraseAll : (elements : List (Element Literal)) →
    Element.renderAll (Element.eraseAll elements) = Element.renderAll elements
  | [] => rfl
  | element :: elements => by
      simp [Element.eraseAll, Element.renderAll, Element.render_erase element,
        Element.renderAll_eraseAll elements]

end

theorem TheoryAtom.render_erase (atom : TheoryAtom) : atom.erase.render = atom.render := by
  have arguments : (Term.eraseAll atom.arguments).isEmpty = atom.arguments.isEmpty := by
    cases atom.arguments <;> rfl
  have elements : (Element.eraseAll atom.elements).isEmpty = atom.elements.isEmpty := by
    cases atom.elements <;> rfl
  simp only [TheoryAtom.erase, TheoryAtom.render, Term.renderAll_eraseAll,
    Element.renderAll_eraseAll, Guard.renderRight_erase, arguments, elements]

theorem Head.render_erase (head : Head) : head.erase.render = head.render := by
  cases head <;>
    simp [Head.erase, Head.render, Literal.render_erase, Aggregate.render_erase,
      TheoryAtom.render_erase]

theorem Head.isFalse_erase (head : Head) : head.erase.isFalse = head.isFalse := by
  cases head with
  | literal content =>
      obtain ⟨sign, atom, origin⟩ := content
      cases atom <;> rfl
  | aggregate content => rfl
  | theory content => rfl

theorem BodyElement.render_erase (element : BodyElement) :
    element.erase.render = element.render := by
  cases element <;>
    simp [BodyElement.erase, BodyElement.render, Literal.render_erase, Conditional.render_erase,
      TheoryAtom.render_erase]

theorem BodyElement.hasCondition_erase (element : BodyElement) :
    element.erase.hasCondition = element.hasCondition := by
  cases element with
  | literal content => rfl
  | conditional content =>
      obtain ⟨literal, condition, origin⟩ := content
      cases condition <;> rfl
  | theory content => rfl

theorem renderBody_erase (body : List BodyElement) :
    renderBody (body.map BodyElement.erase) = renderBody body := by
  fun_induction renderBody body with
  | case1 => rfl
  | case2 element => exact element.render_erase
  | case3 element next body inductionHypothesis =>
      rw [List.map_cons, List.map_cons, renderBody, element.render_erase,
        element.hasCondition_erase, ← List.map_cons, inductionHypothesis]

theorem Rule.render_erase (rule : Rule) : rule.erase.render = rule.render := by
  simp only [Rule.erase, Rule.render, Head.render_erase, Head.isFalse_erase, renderBody_erase,
    List.isEmpty_map]

theorem WeakConstraint.render_erase (constraint : WeakConstraint) :
    constraint.erase.render = constraint.render := by
  simp only [WeakConstraint.erase, WeakConstraint.render, Term.render_erase, renderBody_erase,
    List.isEmpty_map, Term.renderAll, Term.renderAll_eraseAll]

theorem Statement.render_erase (statement : Statement) :
    statement.erase.render = statement.render := by
  cases statement with
  | rule content => exact content.render_erase
  | weakConstraint content => exact content.render_erase
  | directive content => rfl

theorem Program.render_erase (program : Program) : program.erase.render = program.render := by
  simp [Program.erase, Program.render, Function.comp_def, Statement.render_erase]

/-- Components that are the same have the same text. -/
theorem Program.render_eq_of_same {first second : Program} (same : first.same second = true) :
    first.render = second.render := by
  rw [← first.render_erase, ← second.render_erase, (Program.same_iff first second).mp same]

/-! Origins do not matter to what a component consists of. -/

theorem Term.symbol?_erase (term : Term) : term.erase.symbol? = term.symbol? := by
  cases term <;> rfl

theorem Term.constant?_erase (term : Term) : term.erase.constant? = term.constant? := by
  cases term with
  | function name arguments origin => cases arguments <;> rfl
  | _ => rfl

theorem Term.isNamedFunction_erase (term : Term) :
    term.erase.isNamedFunction = term.isNamedFunction := by
  cases term <;> rfl

theorem Term.isAtom_erase (term : Term) : term.erase.isAtom = term.isAtom := by
  cases term with
  | operation operator operands origin =>
      match operands with
      | [] => cases operator <;> rfl
      | [operand] =>
          cases operator with
          | negation => exact operand.isNamedFunction_erase
          | _ => rfl
      | _ :: _ :: _ => cases operator <;> rfl
  | _ => rfl

mutual

theorem Term.vars_erase : (term : Term) → term.erase.vars = term.vars.map Variable.erase
  | .var _ => by simp [Term.erase, Term.vars]
  | .symbol _ _ => by simp [Term.erase, Term.vars]
  | .function _ arguments _ => by simp [Term.erase, Term.vars, Term.varsOf_eraseAll arguments]
  | .operation _ operands _ => by simp [Term.erase, Term.vars, Term.varsOf_eraseAll operands]

theorem Term.varsOf_eraseAll : (terms : List Term) →
    Term.varsOf (Term.eraseAll terms) = (Term.varsOf terms).map Variable.erase
  | [] => rfl
  | term :: terms => by
      simp [Term.eraseAll, Term.varsOf, Term.vars_erase term, Term.varsOf_eraseAll terms]

end

theorem guardVariables_erase (left right : Option Guard) :
    guardVariables (left.map Guard.erase) (right.map Guard.erase) =
      (guardVariables left right).map Variable.erase := by
  cases left <;> cases right <;>
    simp [guardVariables, Guard.vars, Guard.erase, Term.vars_erase]

mutual

theorem Literal.vars_erase : (literal : Literal) →
    literal.erase.vars = literal.vars.map Variable.erase
  | ⟨_, atom, _⟩ => by simp [Literal.erase, Literal.vars, Atom.vars_erase atom]

theorem Literal.varsOf_eraseAll : (literals : List Literal) →
    Literal.varsOf (Literal.eraseAll literals) = (Literal.varsOf literals).map Variable.erase
  | [] => rfl
  | literal :: literals => by
      simp [Literal.eraseAll, Literal.varsOf, Literal.vars_erase literal,
        Literal.varsOf_eraseAll literals]

theorem Atom.vars_erase : (atom : Atom Literal) → atom.erase.vars = atom.vars.map Variable.erase
  | .predicate _ _ => by simp [Atom.erase, Atom.vars, Term.vars_erase]
  | .boolean _ _ => rfl
  | .comparison _ _ _ _ => by simp [Atom.erase, Atom.vars, Term.vars_erase]
  | .aggregate content => by simp [Atom.erase, Atom.vars, Aggregate.vars_erase content]
  | .bodyAggregate content => by simp [Atom.erase, Atom.vars, BodyAggregate.vars_erase content]

theorem Aggregate.vars_erase : (aggregate : Aggregate Literal) →
    aggregate.erase.vars = aggregate.vars.map Variable.erase
  | ⟨_, elements, _, _⟩ => by
      simp [Aggregate.erase, Aggregate.vars, guardVariables_erase,
        Conditional.varsOf_eraseAll elements]

theorem BodyAggregate.vars_erase : (aggregate : BodyAggregate Literal) →
    aggregate.erase.vars = aggregate.vars.map Variable.erase
  | ⟨_, _, elements, _, _⟩ => by
      simp [BodyAggregate.erase, BodyAggregate.vars, guardVariables_erase,
        Element.varsOf_eraseAll elements]

theorem Conditional.vars_erase : (element : Conditional Literal) →
    element.erase.vars = element.vars.map Variable.erase
  | ⟨literal, condition, _⟩ => by
      simp [Conditional.erase, Conditional.vars, Literal.vars_erase literal,
        Literal.varsOf_eraseAll condition]

theorem Conditional.varsOf_eraseAll : (elements : List (Conditional Literal)) →
    Conditional.varsOf (Conditional.eraseAll elements) =
      (Conditional.varsOf elements).map Variable.erase
  | [] => rfl
  | element :: elements => by
      simp [Conditional.eraseAll, Conditional.varsOf, Conditional.vars_erase element,
        Conditional.varsOf_eraseAll elements]

theorem Element.vars_erase : (element : Element Literal) →
    element.erase.vars = element.vars.map Variable.erase
  | ⟨_, condition⟩ => by
      simp [Element.erase, Element.vars, Term.varsOf_eraseAll, Literal.varsOf_eraseAll condition]

theorem Element.varsOf_eraseAll : (elements : List (Element Literal)) →
    Element.varsOf (Element.eraseAll elements) = (Element.varsOf elements).map Variable.erase
  | [] => rfl
  | element :: elements => by
      simp [Element.eraseAll, Element.varsOf, Element.vars_erase element,
        Element.varsOf_eraseAll elements]

end

theorem BodyElement.vars_erase (element : BodyElement) :
    element.erase.vars = element.vars.map Variable.erase := by
  cases element with
  | literal content => exact content.vars_erase
  | conditional content => exact content.vars_erase
  | theory content => rfl

theorem Head.kind_erase (head : Head) : head.erase.kind = head.kind := by
  cases head <;> rfl

theorem Head.isTheory_erase (head : Head) : head.erase.isTheory = head.isTheory := by
  cases head <;> rfl

end SoftRules
