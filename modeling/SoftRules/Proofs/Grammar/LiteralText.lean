import SoftRules.Grammar.Literal
import SoftRules.Proofs.Grammar.Term
import SoftRules.Proofs.Language.Faithful

/-!
The texts of literals and of their parts, and what stands behind them.
-/

set_option autoImplicit false

namespace SoftRules

open SoftRules.Parser SoftRules.Grammar

namespace Guard

def writeLeft (guard : Option Guard) (rest : List Char) : List Char :=
  (Guard.renderLeft guard).toList ++ rest

def writeRight (guard : Option Guard) (rest : List Char) : List Char :=
  (Guard.renderRight guard).toList ++ rest

theorem writeLeft_some (guard : Guard) (rest : List Char) :
    writeLeft (some guard) rest =
      guard.term.write (' ' :: (guard.relation.symbol.toList ++ ' ' :: rest)) := by
  simp [writeLeft, renderLeft, Term.write]

theorem writeRight_some (guard : Guard) (rest : List Char) :
    writeRight (some guard) rest =
      ' ' :: (guard.relation.symbol.toList ++ ' ' :: guard.term.write rest) := by
  simp [writeRight, renderRight, Term.write]

end Guard

def Literal.write (literal : Literal) (rest : List Char) : List Char :=
  literal.render.toList ++ rest

def Atom.write (atom : Atom Literal) (rest : List Char) : List Char :=
  atom.render.toList ++ rest

def Conditional.write (element : Conditional Literal) (rest : List Char) : List Char :=
  element.render.toList ++ rest

def Element.write (element : Element Literal) (rest : List Char) : List Char :=
  element.render.toList ++ rest

def writeCondition (condition : List Literal) (rest : List Char) : List Char :=
  (renderCondition (Literal.renderAll condition)).toList ++ rest

theorem Literal.renderAll_eq (literals : List Literal) :
    Literal.renderAll literals = literals.map Literal.render := by
  induction literals with
  | nil => rfl
  | cons literal literals inductionHypothesis =>
      rw [Literal.renderAll, inductionHypothesis, List.map_cons]

theorem Conditional.renderAll_eq (elements : List (Conditional Literal)) :
    Conditional.renderAll elements = elements.map Conditional.render := by
  induction elements with
  | nil => rfl
  | cons element elements inductionHypothesis =>
      rw [Conditional.renderAll, inductionHypothesis, List.map_cons]

theorem Element.renderAll_eq (elements : List (Element Literal)) :
    Element.renderAll elements = elements.map Element.render := by
  induction elements with
  | nil => rfl
  | cons element elements inductionHypothesis =>
      rw [Element.renderAll, inductionHypothesis, List.map_cons]

theorem writeCondition_nil (rest : List Char) : writeCondition [] rest = rest := rfl

theorem writeCondition_of_ne_nil {condition : List Literal} (nonempty : condition ≠ [])
    (rest : List Char) :
    writeCondition condition rest =
      ':' :: ' ' :: writeAll [',', ' '] Literal.write condition rest := by
  have texts := writeAll_render ", " Literal.render condition rest
  change writeAll [',', ' '] Literal.write condition rest = _ at texts
  rw [texts]
  simp [writeCondition, renderCondition, Literal.renderAll_eq, nonempty]

theorem Literal.write_eq (literal : Literal) (rest : List Char) :
    literal.write rest = literal.sign.render.toList ++ literal.atom.write rest := by
  obtain ⟨sign, atom, origin⟩ := literal
  simp [Literal.write, Literal.render, Atom.write]

theorem Conditional.write_eq (element : Conditional Literal) (rest : List Char) :
    element.write rest = element.literal.write (writeCondition element.condition rest) := by
  obtain ⟨literal, condition, origin⟩ := element
  simp [Conditional.write, Conditional.render, Literal.write, writeCondition]

theorem Element.write_eq (element : Element Literal) (rest : List Char) :
    element.write rest =
      writeAll [','] Term.write element.terms (writeCondition element.condition rest) := by
  obtain ⟨terms, condition⟩ := element
  have texts := writeAll_render "," Term.render terms (writeCondition condition rest)
  change writeAll [','] Term.write terms (writeCondition condition rest) = _ at texts
  rw [texts]
  simp [Element.write, Element.render, writeCondition, Term.renderAll_eq]

/-- The text of elements in braces. -/
def writeElements {ι : Type} (write : ι → List Char → List Char) (elements : List ι)
    (rest : List Char) : List Char :=
  '\x7b' :: ' ' :: writeAll [';', ' '] write elements (' ' :: '\x7d' :: rest)

theorem writeElements_render {ι : Type} (render : ι → String) (elements : List ι)
    (rest : List Char) :
    (renderElements (elements.map render)).toList ++ rest =
      writeElements (fun element rest => (render element).toList ++ rest) elements rest := by
  have texts := writeAll_render "; " render elements (' ' :: '\x7d' :: rest)
  change writeAll [';', ' '] _ elements _ = _ at texts
  rw [writeElements, texts]
  simp [renderElements]

namespace Atom

theorem write_predicate (term : Term) (origin : Origin) (rest : List Char) :
    (Atom.predicate term origin).write rest = term.write rest := by
  simp [Atom.write, Atom.render, Term.write]

theorem write_boolean (value : Bool) (origin : Origin) (rest : List Char) :
    (Atom.boolean value origin).write rest =
      '#' :: ((if value then "true" else "false").toList ++ rest) := by
  cases value <;> simp [Atom.write, Atom.render]

theorem write_comparison (left : Term) (relation : Relation) (right : Term) (origin : Origin)
    (rest : List Char) :
    (Atom.comparison left relation right origin).write rest =
      left.write (relation.symbol.toList ++ right.write rest) := by
  simp [Atom.write, Atom.render, Term.write]

theorem write_aggregate (content : Aggregate Literal) (rest : List Char) :
    (Atom.aggregate content).write rest =
      Guard.writeLeft content.left
        (writeElements Conditional.write content.elements (Guard.writeRight content.right rest)) := by
  obtain ⟨left, elements, right, origin⟩ := content
  have texts := writeElements_render Conditional.render elements (Guard.writeRight right rest)
  change _ = writeElements Conditional.write elements (Guard.writeRight right rest) at texts
  rw [← texts]
  simp [Atom.write, Atom.render, Aggregate.render, Guard.writeLeft, Guard.writeRight,
    Conditional.renderAll_eq]

theorem write_bodyAggregate (content : BodyAggregate Literal) (rest : List Char) :
    (Atom.bodyAggregate content).write rest =
      Guard.writeLeft content.left (content.function.symbol.toList ++
        ' ' :: writeElements Element.write content.elements (Guard.writeRight content.right rest)) := by
  obtain ⟨function, left, elements, right, origin⟩ := content
  have texts := writeElements_render Element.render elements (Guard.writeRight right rest)
  change _ = writeElements Element.write elements (Guard.writeRight right rest) at texts
  rw [← texts]
  simp [Atom.write, Atom.render, BodyAggregate.render, Guard.writeLeft, Guard.writeRight,
    Element.renderAll_eq]

end Atom

end SoftRules
