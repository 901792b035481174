import SoftRules.Parser.Basic

/-!
White space, comments and the tokens between them.
-/

set_option autoImplicit false

namespace SoftRules.Grammar

open SoftRules.Parser

def isSpace (character : Char) : Bool :=
  character == ' ' || character == '\t' || character == '\r' || character == '\n'

/-- A block comment between `%*` and `*%`, or a line comment after `%`. An unfinished block comment
is read as a line comment. -/
def comment : Parser Unit :=
  firstOf
    [do
      word ['%', '*']
      let _ ← takeUntil ['*', '%'].isPrefixOf (.mismatch .terminator)
      word ['*', '%'],
    do
      word ['%']
      let _ ← takeWhile1 (fun character => character != '\n' && character != '\r') .noneOf,
    word ['%']]

def spaceItem : Parser Unit :=
  firstOf [do let _ ← takeWhile1 isSpace .spaces, comment]

/-- Any amount of white space and comments. -/
def space : Parser Unit := do
  let _ ← many spaceItem

def space1 : Parser Unit := do
  let _ ← many1 spaceItem

def token (spelling : String) : Parser Unit :=
  expecting (.token spelling) (word spelling.toList)

/-- A token with any amount of white space and comments around it. -/
def spacedToken (spelling : String) : Parser Unit :=
  expecting (.token spelling) do
    space
    word spelling.toList
    space

/-- `content` in braces, with white space and comments inside of them. -/
def braced {α : Type} (content : Parser α) : Parser α := do
  char '\x7b'
  space
  let value ← content
  space
  char '\x7d'
  return value

end SoftRules.Grammar
