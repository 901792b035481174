import SoftRules.Grammar.Space
import SoftRules.Language.Term
import SoftRules.Number.Integer

/-!
The grammar of terms. Binary operators are read by precedence climbing: `operation strength` reads
a term whose outermost operators bind at least as tight as `strength`.
-/

set_option autoImplicit false

namespace SoftRules.Grammar

open SoftRules.Parser

def isNameCharacter (character : Char) : Bool :=
  character.isAlphanum || character == '_' || character == '\x27'

/-- A name whose first character is of the given class. -/
def name (isFirst : Char → Bool) : Parser String := do
  let first ← satisfy isFirst .characterClass
  let others ← takeWhile isNameCharacter
  return String.ofList (first :: others)

/-- Names of predicates, functions and constants. -/
def lowercaseName : Parser String := name Char.isLower

def variableName : Parser Variable :=
  located <| expecting .var do
    return { name := ← name fun character => character.isUpper || character == '_' }

def digits : Parser (List Char) := takeWhile1 Char.isDigit .digits

def integer : Parser Int :=
  convert (do return ((← optional (char '-')).isSome, ← digits)) fun (negative, digits) =>
    let value : Int := if negative then -Number.ofDigits digits else Number.ofDigits digits
    if value < Number.minInt64 then .error .integerTooSmall
    else if Number.maxInt64 < value then .error .integerTooLarge
    else .ok value

def unescape : Char → Char
  | 'n' => '\n'
  | 't' => '\t'
  | character => character

def quotedText : Parser String :=
  expecting .text do
    char '"'
    let parts ← many <| firstOf
      [takeWhile1 (fun character => character != '\\' && character != '"') .noneOf,
      do
        char '\\'
        return [unescape (← oneOf ['\\', '"', 'n', 't'])]]
    char '"'
    return String.ofList parts.flatten

/-- Terms in parentheses, and whether a comma follows the last of them. -/
def arguments (term : Parser Term) : Parser (List Term × Bool) := do
  char '('
  space
  let terms ← separated (spacedToken ",") term
  let comma ← optional do space; char ','
  space
  char ')'
  return (terms, comma.isSome)

def functionTerm (term : Parser Term) : Parser Term :=
  located do
    let name ← lowercaseName
    let arguments ← optional (arguments term)
    return .function name ((arguments.map Prod.fst).getD [])

/-- Parentheses around a single term without a comma only group. -/
def tuple (term : Parser Term) : Parser Term := do
  match ← arguments term with
  | ([single], false) => return single
  | (terms, _) => return .tuple terms

def primary (term : Parser Term) : Parser Term :=
  located <| firstOf
    [do return .var (← variableName),
    do return .text (← quotedText),
    functionTerm term,
    tuple term]

def infixOperator : Parser Operator := do
  space
  firstOf <| Operator.binary.map fun operator => do
    word operator.symbol.toList
    return operator

/-- The strength at which only terms without binary operators are left. -/
def operandStrength : Nat := Operator.negation.strength

/-- An integer, a negated operand or a primary term. -/
def operand (operation : Nat → Parser Term) : Parser Term :=
  firstOf
    [located do return .number (← integer),
    located do
      char '-'
      space
      return .negate (← operation operandStrength),
    primary (expecting .term (operation 0))]

/-- A further operator of the given strength with its right operand, and where the latter ends. -/
def continuation (operation : Nat → Parser Term) (strength : Nat) :
    Parser (Option (Operator × Term × Nat)) := do
  match ← optional infixOperator with
  | none => return none
  | some operator =>
      if operator.strength < strength then return none
      space
      let right ← operation operator.rightStrength
      return some (operator, right, ← offset)

def operationStep (operation : Nat → Parser Term) (strength : Nat) : Parser Term := do
  let start ← offset
  let first ← operand operation
  let others ← rounds (continuation operation strength)
  return others.foldl
    (fun left (operator, right, stop) =>
      .operation operator [left, right] (some ⟨start, stop⟩)) first

def operation (strength : Nat) : Parser Term :=
  fix operationStep strength

def term : Parser Term :=
  expecting .term (operation 0)

end SoftRules.Grammar
