import SoftRules.Grammar.Term
import SoftRules.Language.Literal

/-!
The grammar of literals. Productions that contain literals take the parser of literals as an
argument; `literal` closes the circle.
-/

set_option autoImplicit false

namespace SoftRules.Grammar

open SoftRules.Parser

def relation : Parser Relation :=
  expecting .relation <| firstOf <|
    [("==", .equal), ("!=", .unequal), ("<=", .lessEqual), (">=", .greaterEqual), ("=", .equal),
      ("<", .less), (">", .greater)].map fun ((spelling, relation) : String × Relation) => do
        word spelling.toList
        return relation

def boolean : Parser (Atom Literal) :=
  located <| firstOf
    [do
      word "#true".toList
      return .boolean true,
    do
      word "#false".toList
      return .boolean false]

def comparison : Parser (Atom Literal) :=
  located do
    let left ← term
    space
    let relation ← relation
    space
    let right ← term
    return .comparison left relation right

/-- A predicate applied to terms, with an optional `-` for classical negation. -/
def predicate : Parser (Atom Literal) :=
  located do
    let negation ← optional do char '-'; space
    let function ← functionTerm term
    return .predicate (if negation.isSome then .negate function else function)

/-- A bound in front of an aggregate; the relation defaults to `<=`. -/
def leftGuard : Parser Guard := do
  let term ← term
  let relation ← optional do space; relation
  return ⟨relation.getD .lessEqual, term⟩

/-- A bound behind an aggregate; the relation defaults to `<=`. -/
def rightGuard : Parser Guard := do
  let relation ← optional do
    let relation ← relation
    space
    return relation
  let term ← term
  return ⟨relation.getD .lessEqual, term⟩

/-- The optional bound in front of an aggregate, with the space behind it. -/
def leadingGuard : Parser (Option Guard) :=
  optional do
    let guard ← leftGuard
    space
    return guard

def trailingGuard : Parser (Option Guard) :=
  optional do space; rightGuard

/-- The optional condition behind a literal or a tuple. -/
def condition (literal : Parser Literal) : Parser (List Literal) := do
  let literals ← optional do
    spacedToken ":"
    separated1 (spacedToken ",") literal
  return literals.getD []

def conditional (literal : Parser Literal) : Parser (Conditional Literal) :=
  located do
    let first ← literal
    let condition ← condition literal
    return { literal := first, condition }

def aggregate (literal : Parser Literal) : Parser (Aggregate Literal) :=
  located do
    let left ← leadingGuard
    let elements ← braced (separated (spacedToken ";") (conditional literal))
    let right ← trailingGuard
    return { left, elements, right }

def aggregateFunction : Parser AggregateFunction :=
  convert
    (consumed do
      char '#'
      let _ ← takeWhile1 Char.isAlpha .letters
      let _ ← optional (char '+'))
    fun name =>
      match AggregateFunction.ofSymbol? (String.ofList name) with
      | some function => .ok function
      | none => .error (.mismatch .conversion)

def element (literal : Parser Literal) : Parser (Element Literal) := do
  let terms ← separated1 (spacedToken ",") term
  let condition ← condition literal
  return { terms, condition }

def bodyAggregate (literal : Parser Literal) : Parser (BodyAggregate Literal) :=
  located do
    let left ← leadingGuard
    let function ← aggregateFunction
    space
    let elements ← braced (separated (spacedToken ";") (element literal))
    let right ← trailingGuard
    return { function, left, elements, right }

def atom (literal : Parser Literal) : Parser (Atom Literal) :=
  expecting .atom <| firstOf
    [boolean,
    do return .aggregate (← aggregate literal),
    do return .bodyAggregate (← bodyAggregate literal),
    comparison,
    predicate]

/-- The word `not`, which white space must follow. -/
def negation : Parser Unit := do
  word "not".toList
  space1

def sign : Parser Sign :=
  firstOf
    [do
      negation
      negation
      return .doublyNegated,
    do
      negation
      return .negated,
    return .plain]

def literalStep (literal : Parser Literal) : Parser Literal :=
  located <| expecting .literal do
    let sign ← sign
    let atom ← atom literal
    return { sign, atom }

def literal : Parser Literal :=
  fix (fun literal (_ : Unit) => literalStep (literal ())) ()

end SoftRules.Grammar
