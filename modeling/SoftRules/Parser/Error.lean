import SoftRules.Source.Position

/-!
Errors of the parser. An error is a chain of complaints from the outermost production that failed
to the innermost one, each with the byte offset at which it was tried.
-/

set_option autoImplicit false

namespace SoftRules

/-- What an elementary step of the parser found missing. -/
inductive Mismatch where
  | word
  | character
  | oneOf
  | characterClass
  | digits
  | letters
  | spaces
  | noneOf
  | terminator
  | predicate
  | conversion
  | negation
  | endOfText
  | alternatives
  | repetition
  | progress
  deriving DecidableEq, Repr

def Mismatch.description : Mismatch → String
  | word => "Tag"
  | character => "Char"
  | oneOf => "OneOf"
  | characterClass => "Satisfy"
  | digits => "Digit"
  | letters => "Alphabetic"
  | spaces => "Multiple spaces"
  | noneOf => "IsNot"
  | terminator => "Take until"
  | predicate => "predicate verification"
  | conversion => "Map on Option"
  | negation => "Negation"
  | endOfText => "End of file"
  | alternatives => "Alternative"
  | repetition => "Many1"
  | progress => "Many0"

/-- What a production of the grammar stands for. -/
inductive Expectation where
  | token (spelling : String)
  | statement
  | rule
  | weakConstraint
  | directive
  | weight
  | head
  | bodyElement
  | literal
  | atom
  | theoryAtom
  | relation
  | term
  | var
  | text
  deriving DecidableEq, Repr

def Expectation.description : Expectation → String
  | token spelling => "\"" ++ spelling ++ "\""
  | statement => "a statement (i.e., a rule, a weak constraint or a directive)"
  | rule => "a rule"
  | weakConstraint => "a weak constraint"
  | directive => "a directive"
  | weight => "a weight"
  | head => "a rule head (i.e., a literal, an aggregate or a theory atom)"
  | bodyElement => "a literal or a theory atom"
  | literal => "a literal"
  | atom => "an atom"
  | theoryAtom => "a theory atom"
  | relation => "a comparison operator"
  | term => "a term"
  | var => "a variable"
  | text => "a string literal"

namespace ParseError

inductive Cause where
  | mismatch (kind : Mismatch)
  | integerTooLarge
  | integerTooSmall
  | expected (expectation : Expectation)
  deriving DecidableEq, Repr

def Cause.message : Cause → String
  | mismatch kind => "Syntax error: " ++ kind.description
  | integerTooLarge => "Integer out of range: number too large to fit in target type"
  | integerTooSmall => "Integer out of range: number too small to fit in target type"
  | expected expectation => "Expected " ++ expectation.description

structure Complaint where
  cause : Cause
  offset : Nat
  deriving DecidableEq, Repr

end ParseError

/-- The complaints are listed from the outside in. -/
structure ParseError where
  outer : ParseError.Complaint
  inner : List ParseError.Complaint := []
  deriving DecidableEq, Repr

namespace ParseError

def complaints (error : ParseError) : List Complaint :=
  error.outer :: error.inner

/-- The complaint that is closest to the problem. -/
def innermost (error : ParseError) : Complaint :=
  error.inner.getLastD error.outer

/-- The error seen from a production that was started at `offset`. -/
def within (cause : Cause) (offset : Nat) (error : ParseError) : ParseError :=
  ⟨⟨cause, offset⟩, error.complaints⟩

/-- The byte at which the innermost production failed. -/
def span (error : ParseError) : Span :=
  ⟨error.innermost.offset, error.innermost.offset + 1⟩

/-- The position and cause, followed by the line around the position with an arrow below it. At
the end of the text no line is shown. -/
def Complaint.lines (text : List Char) (complaint : Complaint) : List String :=
  let column := Source.column text complaint.offset
  ("Parse error on line " ++ toString (Source.line text complaint.offset) ++ ", column " ++
    toString column ++ ": " ++ complaint.cause.message) ::
  if (Source.split text complaint.offset).2.isEmpty then
    ["at "]
  else
    ["at \"" ++ String.ofList (Source.lineAround text complaint.offset) ++ "\"",
      String.ofList (List.replicate (column + 3) '-') ++ "^"]

/-- Each complaint is indented below the one around it. -/
def chainLines (text : List Char) : List Complaint → List String
  | [] => []
  | [complaint] => complaint.lines text
  | complaint :: inner =>
      complaint.lines text ++ "Context:" :: (chainLines text inner).map ("  " ++ ·)

def message (text : List Char) (error : ParseError) : String :=
  String.intercalate "\n" (chainLines text error.complaints)

end ParseError

end SoftRules
