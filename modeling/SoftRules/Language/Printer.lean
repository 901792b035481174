import SoftRules.Language.Statement

/-!
The concrete text of terms, literals and statements. Parentheses are written only where an operand
binds weaker than its position asks for, and strings are quoted with escapes.
-/

set_option autoImplicit false

namespace SoftRules

/-- How a character is written inside of a quoted string. -/
def escape : Char → List Char
  | '"' => ['\\', '"']
  | '\\' => ['\\', '\\']
  | '\n' => ['\\', 'n']
  | '\t' => ['\\', 't']
  | character => [character]

def Symbol.render : Symbol → String
  | number value => toString value
  | text value => "\"" ++ String.ofList (value.toList.flatMap escape) ++ "\""

def Sign.render : Sign → String
  | plain => ""
  | negated => "not "
  | doublyNegated => "not not "

namespace Term

def operator? : Term → Option Operator
  | operation operator _ _ => some operator
  | _ => none

/-- Whether `operand` needs parentheses below a unary operator. -/
def bindsWeakerThanUnary (operand : Term) : Bool :=
  match operand.operator? with
  | some inner => !inner.isUnary
  | none => false

/-- Whether `operand` needs parentheses as an operand of `outer`. Between operators of equal
strength the side to which `outer` associates goes without. -/
def bindsWeakerThan (outer : Operator) (onRight : Bool) (operand : Term) : Bool :=
  match operand.operator? with
  | some inner =>
      inner.strength < outer.strength ||
        (inner.strength == outer.strength && onRight != outer.associatesRight)
  | none => false

end Term

def enclose (needed : Bool) (text : String) : String :=
  if needed then "(" ++ text ++ ")" else text

mutual

/-- Operations that are neither a negation of one operand nor binary are written like function
terms. -/
def Term.render : Term → String
  | .var x => x.name
  | .symbol value _ => value.render
  | .function name arguments _ =>
      if arguments.isEmpty && name != "" then name
      else
        name ++ "(" ++ String.intercalate "," (Term.renderAll arguments) ++
          (if name == "" && arguments.length == 1 then ",)" else ")")
  | .operation operator [operand] _ =>
      operator.symbol ++
        enclose (!operator.isUnary || operand.bindsWeakerThanUnary) operand.render
  | .operation operator [left, right] _ =>
      enclose (left.bindsWeakerThan operator false) left.render ++ operator.symbol ++
        enclose (right.bindsWeakerThan operator true) right.render
  | .operation operator operands _ =>
      operator.symbol ++ "(" ++ String.intercalate "," (Term.renderAll operands) ++ ")"

def Term.renderAll : List Term → List String
  | [] => []
  | term :: terms => term.render :: Term.renderAll terms

end

namespace Guard

def renderLeft : Option Guard → String
  | some guard => guard.term.render ++ " " ++ guard.relation.symbol ++ " "
  | none => ""

def renderRight : Option Guard → String
  | some guard => " " ++ guard.relation.symbol ++ " " ++ guard.term.render
  | none => ""

end Guard

/-- A condition follows a colon; an empty one is not written. -/
def renderCondition (literals : List String) : String :=
  if literals.isEmpty then "" else ": " ++ String.intercalate ", " literals

/-- The elements of an aggregate or a theory atom, in braces. -/
def renderElements (elements : List String) : String :=
  "\x7b " ++ String.intercalate "; " elements ++ " \x7d"

mutual

def Literal.render : Literal → String
  | ⟨sign, atom, _⟩ => sign.render ++ atom.render

def Literal.renderAll : List Literal → List String
  | [] => []
  | literal :: literals => literal.render :: Literal.renderAll literals

def Atom.render : Atom Literal → String
  | .predicate term _ => term.render
  | .boolean value _ => if value then "#true" else "#false"
  | .comparison left relation right _ => left.render ++ relation.symbol ++ right.render
  | .aggregate content => content.render
  | .bodyAggregate content => content.render

def Aggregate.render : Aggregate Literal → String
  | ⟨left, elements, right, _⟩ =>
      Guard.renderLeft left ++ renderElements (Conditional.renderAll elements) ++
        Guard.renderRight right

def BodyAggregate.render : BodyAggregate Literal → String
  | ⟨function, left, elements, right, _⟩ =>
      Guard.renderLeft left ++ function.symbol ++ " " ++
        renderElements (Element.renderAll elements) ++ Guard.renderRight right

def Conditional.render : Conditional Literal → String
  | ⟨literal, condition, _⟩ => literal.render ++ renderCondition (Literal.renderAll condition)

def Conditional.renderAll : List (Conditional Literal) → List String
  | [] => []
  | element :: elements => element.render :: Conditional.renderAll elements

def Element.render : Element Literal → String
  | ⟨terms, condition⟩ =>
      String.intercalate "," (Term.renderAll terms) ++
        renderCondition (Literal.renderAll condition)

def Element.renderAll : List (Element Literal) → List String
  | [] => []
  | element :: elements => element.render :: Element.renderAll elements

end

def TheoryAtom.render (atom : TheoryAtom) : String :=
  "&" ++ atom.name ++
    (if atom.arguments.isEmpty then ""
      else "(" ++ String.intercalate "," (Term.renderAll atom.arguments) ++ ")") ++
    (if atom.elements.isEmpty then ""
      else " " ++ renderElements (Element.renderAll atom.elements)) ++
    Guard.renderRight atom.guard

def Head.render : Head → String
  | literal content => content.render
  | aggregate content => content.render
  | theory content => content.render

def BodyElement.render : BodyElement → String
  | literal content => content.render
  | conditional content => content.render
  | theory content => content.render

/-- Body elements are separated by commas, but one that ends in a condition is followed by a
semicolon. -/
def renderBody : List BodyElement → String
  | [] => ""
  | [element] => element.render
  | element :: next :: body =>
      element.render ++ (if element.hasCondition then "; " else ", ") ++ renderBody (next :: body)

/-- The head `#false` of a rule with a body is not written. -/
def Rule.render (rule : Rule) : String :=
  if rule.body.isEmpty then rule.head.render ++ "."
  else
    (if rule.head.isFalse then "" else rule.head.render ++ " ") ++ ":- " ++
      renderBody rule.body ++ "."

def WeakConstraint.render (constraint : WeakConstraint) : String :=
  ":~ " ++ (if constraint.body.isEmpty then "#true" else renderBody constraint.body) ++ ". [" ++
    constraint.weight.render ++ "@" ++
    String.intercalate "," (Term.renderAll (constraint.priority :: constraint.terms)) ++ "]"

def Directive.render (directive : Directive) : String :=
  directive.text ++ "."

def Statement.render : Statement → String
  | rule content => content.render
  | weakConstraint content => content.render
  | directive content => content.render

/-- One statement a line. -/
def Program.render (program : Program) : String :=
  String.join (program.map fun statement => statement.render ++ "\n")

end SoftRules
