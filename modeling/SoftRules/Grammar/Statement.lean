import SoftRules.Grammar.Literal
import SoftRules.Language.Statement

/-!
The grammar of statements and programs. A weight in front of a rule is read as the annotation
`&weight` at the end of its body.
-/

set_option autoImplicit false

namespace SoftRules.Grammar

open SoftRules.Parser

def theoryAtom : Parser TheoryAtom :=
  located <| expecting .theoryAtom do
    char '&'
    let name ← lowercaseName
    let arguments ← optional (arguments term)
    let elements ← optional do
      space
      braced (separated (spacedToken ";") (element literal))
    let guard ← optional do
      space
      let relation ← relation
      space
      return { relation, term := ← term }
    return {
      name
      arguments := (arguments.map Prod.fst).getD []
      elements := elements.getD []
      guard }

def head : Parser Head :=
  expecting .head <| firstOf
    [do return .theory (← theoryAtom),
    do return .aggregate (← aggregate literal),
    do return .literal (← literal)]

def bodyElement : Parser BodyElement :=
  expecting .bodyElement <| firstOf
    [do return .theory (← theoryAtom),
    do
      let element ← conditional literal
      return if element.condition.isEmpty then .literal element.literal else .conditional element]

def body : Parser (List BodyElement) :=
  separated1 (firstOf [spacedToken ",", spacedToken ";"]) bodyElement

/-- The term of a weight: an integer if it is one of 64 bits, and otherwise its text. -/
def weightTerm (text : List Char) : Term :=
  match Number.integer? text with
  | some value => if Number.fitsInt64 value then .number value else .text (String.ofList text)
  | none => .text (String.ofList text)

def weightNumber : Parser (List Char) :=
  consumed do
    let _ ← optional (char '-')
    let _ ← digits
    let _ ← optional do char '.'; digits
    let _ ← optional do
      let _ ← oneOf ['e', 'E']
      let _ ← optional (oneOf ['+', '-'])
      digits

/-- The weight in front of a rule, up to its colon. -/
def weight : Parser TheoryAtom :=
  expecting .weight do
    let atom ← located do
      return { name := "weight", arguments := [weightTerm (← weightNumber)] : TheoryAtom }
    space
    char ':'
    refuse (oneOf ['-', '~'])
    return atom

def headAndBody : Parser (Head × List BodyElement) :=
  firstOf
    [do
      token ":-"
      space
      return (.literal (.boolean false), ← commit body),
    do
      let head ← head
      let body ← optional do spacedToken ":-"; commit body
      return (head, body.getD [])]

def rule : Parser Rule :=
  located <| expecting .rule do
    let weight ← optional do
      let weight ← weight
      space
      return weight
    let (head, body) ← headAndBody
    space
    token "."
    return { head, body := body ++ (weight.map BodyElement.theory).toList }

def weakConstraint : Parser WeakConstraint :=
  located <| expecting .weakConstraint do
    token ":~"
    space
    commit do
      let body ← body
      spacedToken "."
      token "["
      space
      let weight ← term
      let priority ← optional do spacedToken "@"; term
      let terms ← many do spacedToken ","; term
      space
      token "]"
      return { body, weight, priority := priority.getD (.number 0), terms }

/-- Whether a directive ends here: at a period with a blank, a comment or nothing behind it. -/
def endsDirective : List Char → Bool
  | ['.'] => true
  | '.' :: next :: _ => isSpace next || next == '\x0c' || next == '%'
  | _ => false

def directiveBody : Parser (List Char) :=
  takeUntil endsDirective (.expected (.token "."))

/-- Names that do not introduce a directive. -/
def isReserved (name : String) : Bool :=
  name == "true" || name == "false" || (AggregateFunction.ofSymbol? ("#" ++ name)).isSome

def directiveName : Parser (List Char) :=
  convert (takeWhile1 Char.isAlpha .letters) fun name =>
    if isReserved (String.ofList name) then .error (.mismatch .predicate) else .ok name

def directive : Parser Directive :=
  located <| expecting .directive do
    let text ← consumed do
      char '#'
      let _ ← directiveName
      directiveBody
    token "."
    return .ofText text

def statement : Parser Statement :=
  expecting .statement <| firstOf
    [do return .directive (← directive),
    do return .weakConstraint (← weakConstraint),
    do return .rule (← rule)]

/-- A statement of a program. Nothing else may stand in its place. -/
def programStatement : Parser Statement := do
  let statement ← commit statement
  space
  return statement

def program : Parser Program := do
  space
  untilEnd programStatement

def singleStatement : Parser Statement := do
  space
  let statement ← statement
  space
  return statement

end SoftRules.Grammar

namespace SoftRules

def Program.parse (text : List Char) : Except ParseError Program :=
  Grammar.program.run text

def Statement.parse (text : List Char) : Except ParseError Statement :=
  Grammar.singleStatement.run text

end SoftRules
