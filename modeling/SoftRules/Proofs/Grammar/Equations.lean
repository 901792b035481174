import SoftRules.Proofs.Grammar.Passage
import SoftRules.Proofs.Parser.Progress

/-!
The grammar as a system of equations.

Every production and every loop of the grammar is named here. Its equation is what it does with a
family of parsers that stand for all productions and loops: it reads characters, and it calls
members of the family. The equations contain no recursion, and their loops do not check whether
they get on. The parsers of the grammar are a solution: each of them satisfies its equation if the
family consists of the parsers themselves. Each production reads something, and so does each round
of a loop that answers.
-/

set_option autoImplicit false

namespace SoftRules.Grammar

open SoftRules.Parser

/-- The productions, by what they read. Parts that may be empty, such as white space, signs and
conditions, are not among them. -/
inductive Production : Type → Type
  | lowercaseName : Production String
  | variableName : Production Variable
  | integer : Production Int
  | quotedText : Production String
  | infixOperator : Production Operator
  | relation : Production Relation
  | aggregateFunction : Production AggregateFunction
  | negation : Production Unit
  | weight : Production TheoryAtom
  | directive : Production Directive
  | arguments : Production (List Term × Bool)
  | functionTerm : Production Term
  | tuple : Production Term
  | primary : Production Term
  | operand : Production Term
  | operation (strength : Nat) : Production Term
  | term : Production Term
  | boolean : Production (Atom Literal)
  | comparison : Production (Atom Literal)
  | predicate : Production (Atom Literal)
  | leftGuard : Production Guard
  | rightGuard : Production Guard
  | aggregate : Production (Aggregate Literal)
  | bodyAggregate : Production (BodyAggregate Literal)
  | atom : Production (Atom Literal)
  | literal : Production Literal
  | conditional : Production (Conditional Literal)
  | element : Production (Element Literal)
  | theoryAtom : Production TheoryAtom
  | head : Production Head
  | bodyElement : Production BodyElement
  | body : Production (List BodyElement)
  | rule : Production Rule
  | weakConstraint : Production WeakConstraint
  | statement : Production Statement

/-- The loops, by what a round of them reads. Those of lists go on behind the first item. -/
inductive Loop : Type → Type
  | spaces : Loop Unit
  | textParts : Loop (List Char)
  | operators (strength : Nat) : Loop (Operator × Term × Nat)
  | terms : Loop Term
  | literals : Loop Literal
  | conditionals : Loop (Conditional Literal)
  | elements : Loop (Element Literal)
  | bodyElements : Loop BodyElement
  | statements : Loop Statement

/-- The parser that runs for a production. -/
def Production.parser : {α : Type} → Production α → Parser α
  | _, .lowercaseName => Grammar.lowercaseName
  | _, .variableName => Grammar.variableName
  | _, .integer => Grammar.integer
  | _, .quotedText => Grammar.quotedText
  | _, .infixOperator => Grammar.infixOperator
  | _, .relation => Grammar.relation
  | _, .aggregateFunction => Grammar.aggregateFunction
  | _, .negation => Grammar.negation
  | _, .weight => Grammar.weight
  | _, .directive => Grammar.directive
  | _, .arguments => Grammar.arguments Grammar.term
  | _, .functionTerm => Grammar.functionTerm Grammar.term
  | _, .tuple => Grammar.tuple Grammar.term
  | _, .primary => Grammar.primary Grammar.term
  | _, .operand => Grammar.operand Grammar.operation
  | _, .operation strength => Grammar.operation strength
  | _, .term => Grammar.term
  | _, .boolean => Grammar.boolean
  | _, .comparison => Grammar.comparison
  | _, .predicate => Grammar.predicate
  | _, .leftGuard => Grammar.leftGuard
  | _, .rightGuard => Grammar.rightGuard
  | _, .aggregate => Grammar.aggregate Grammar.literal
  | _, .bodyAggregate => Grammar.bodyAggregate Grammar.literal
  | _, .atom => Grammar.atom Grammar.literal
  | _, .literal => Grammar.literal
  | _, .conditional => Grammar.conditional Grammar.literal
  | _, .element => Grammar.element Grammar.literal
  | _, .theoryAtom => Grammar.theoryAtom
  | _, .head => Grammar.head
  | _, .bodyElement => Grammar.bodyElement
  | _, .body => Grammar.body
  | _, .rule => Grammar.rule
  | _, .weakConstraint => Grammar.weakConstraint
  | _, .statement => Grammar.statement

/-- A statement of a program, for any parser of statements. -/
def spacedStatement (parser : Parser Statement) : Parser Statement := do
  let statement ← commit parser
  space
  return statement

/-- A round of a loop, for any parsers in the place of the productions. -/
def Loop.round (production : {α : Type} → Production α → Parser α) :
    {α : Type} → Loop α → Parser (Option α)
  | _, .spaces => optional spaceItem
  | _, .textParts =>
      optional <| firstOf
        [takeWhile1 (fun character => character != '\\' && character != '"') .noneOf,
        do
          char '\\'
          return [unescape (← oneOf ['\\', '"', 'n', 't'])]]
  | _, .operators strength => do
      match ← optional (production .infixOperator) with
      | none => return none
      | some operator =>
          if operator.strength < strength then return none
          space
          let right ← production (.operation operator.rightStrength)
          return some (operator, right, ← offset)
  | _, .terms => optional do spacedToken ","; production .term
  | _, .literals => optional do spacedToken ","; production .literal
  | _, .conditionals => optional do spacedToken ";"; production .conditional
  | _, .elements => optional do spacedToken ";"; production .element
  | _, .bodyElements =>
      optional do firstOf [spacedToken ",", spacedToken ";"]; production .bodyElement
  | _, .statements => do
      if ← atEnd then return none
      return some (← spacedStatement (production .statement))

/-- The parser that runs for a loop. -/
def Loop.parser {α : Type} (loop : Loop α) : Parser (List α) :=
  rounds (loop.round Production.parser)

/-- Parsers for all productions and loops. -/
structure Family where
  production {α : Type} : Production α → Parser α
  loop {α : Type} : Loop α → Parser (List α)

instance : CoeFun Family fun _ => {α : Type} → Production α → Parser α :=
  ⟨fun family => family.production⟩

/-- The parsers that run. -/
def parsers : Family := ⟨Production.parser, Loop.parser⟩

/-! Equations. -/

section Equations

variable (family : Family)

def nonemptyList {α : Type} (item : Production α) (further : Loop α) : Parser (List α) := do
  let first ← family item
  let others ← family.loop further
  return first :: others

def possibleList {α : Type} (item : Production α) (further : Loop α) : Parser (List α) := do
  return (← optional (nonemptyList family item further)).getD []

def possibleCondition : Parser (List Literal) := do
  let literals ← optional do
    spacedToken ":"
    nonemptyList family .literal .literals
  return literals.getD []

def possibleLeftGuard : Parser (Option Guard) :=
  optional do
    let guard ← family .leftGuard
    space
    return guard

def possibleRightGuard : Parser (Option Guard) :=
  optional do space; family .rightGuard

def possibleSign : Parser Sign :=
  firstOf
    [do
      family .negation
      family .negation
      return .doublyNegated,
    do
      family .negation
      return .negated,
    return .plain]

/-- The head and the body of a rule. -/
def sides : Parser (Head × List BodyElement) :=
  firstOf
    [do
      token ":-"
      space
      return (.literal (.boolean false), ← commit (family .body)),
    do
      let head ← family .head
      let body ← optional do spacedToken ":-"; commit (family .body)
      return (head, body.getD [])]

def Production.equation : {α : Type} → Production α → Parser α
  | _, .lowercaseName => Grammar.lowercaseName
  | _, .variableName => Grammar.variableName
  | _, .integer => Grammar.integer
  | _, .quotedText =>
      expecting .text do
        char '"'
        let parts ← family.loop .textParts
        char '"'
        return String.ofList parts.flatten
  | _, .infixOperator => Grammar.infixOperator
  | _, .relation => Grammar.relation
  | _, .aggregateFunction => Grammar.aggregateFunction
  | _, .negation => Grammar.negation
  | _, .weight => Grammar.weight
  | _, .directive => Grammar.directive
  | _, .arguments => do
      char '('
      space
      let terms ← possibleList family .term .terms
      let comma ← optional do space; char ','
      space
      char ')'
      return (terms, comma.isSome)
  | _, .functionTerm =>
      located do
        let name ← family .lowercaseName
        let arguments ← optional (family .arguments)
        return .function name ((arguments.map Prod.fst).getD [])
  | _, .tuple => do
      match ← family .arguments with
      | ([single], false) => return single
      | (terms, _) => return .tuple terms
  | _, .primary =>
      located <| firstOf
        [do return .var (← family .variableName),
        do return .text (← family .quotedText),
        family .functionTerm,
        family .tuple]
  | _, .operand =>
      firstOf
        [located do return .number (← family .integer),
        located do
          char '-'
          space
          return .negate (← family (.operation operandStrength)),
        family .primary]
  | _, .operation strength => do
      let start ← offset
      let first ← family .operand
      let others ← family.loop (.operators strength)
      return others.foldl
        (fun left (operator, right, stop) =>
          .operation operator [left, right] (some ⟨start, stop⟩)) first
  | _, .term => expecting .term (family (.operation 0))
  | _, .boolean => Grammar.boolean
  | _, .comparison =>
      located do
        let left ← family .term
        space
        let relation ← family .relation
        space
        let right ← family .term
        return .comparison left relation right
  | _, .predicate =>
      located do
        let negation ← optional do char '-'; space
        let function ← family .functionTerm
        return .predicate (if negation.isSome then .negate function else function)
  | _, .leftGuard => do
      let term ← family .term
      let relation ← optional do space; family .relation
      return ⟨relation.getD .lessEqual, term⟩
  | _, .rightGuard => do
      let relation ← optional do
        let relation ← family .relation
        space
        return relation
      let term ← family .term
      return ⟨relation.getD .lessEqual, term⟩
  | _, .aggregate =>
      located do
        let left ← possibleLeftGuard family
        let elements ← braced (possibleList family .conditional .conditionals)
        let right ← possibleRightGuard family
        return { left, elements, right }
  | _, .bodyAggregate =>
      located do
        let left ← possibleLeftGuard family
        let function ← family .aggregateFunction
        space
        let elements ← braced (possibleList family .element .elements)
        let right ← possibleRightGuard family
        return { function, left, elements, right }
  | _, .atom =>
      expecting .atom <| firstOf
        [family .boolean,
        do return .aggregate (← family .aggregate),
        do return .bodyAggregate (← family .bodyAggregate),
        family .comparison,
        family .predicate]
  | _, .literal =>
      located <| expecting .literal do
        let sign ← possibleSign family
        let atom ← family .atom
        return { sign, atom }
  | _, .conditional =>
      located do
        let first ← family .literal
        let condition ← possibleCondition family
        return { literal := first, condition }
  | _, .element => do
      let terms ← nonemptyList family .term .terms
      let condition ← possibleCondition family
      return { terms, condition }
  | _, .theoryAtom =>
      located <| expecting .theoryAtom do
        char '&'
        let name ← family .lowercaseName
        let arguments ← optional (family .arguments)
        let elements ← optional do
          space
          braced (possibleList family .element .elements)
        let guard ← optional do
          space
          let relation ← family .relation
          space
          return { relation, term := ← family .term }
        return {
          name
          arguments := (arguments.map Prod.fst).getD []
          elements := elements.getD []
          guard }
  | _, .head =>
      expecting .head <| firstOf
        [do return .theory (← family .theoryAtom),
        do return .aggregate (← family .aggregate),
        do return .literal (← family .literal)]
  | _, .bodyElement =>
      expecting .bodyElement <| firstOf
        [do return .theory (← family .theoryAtom),
        do
          let element ← family .conditional
          return if element.condition.isEmpty then .literal element.literal
            else .conditional element]
  | _, .body => nonemptyList family .bodyElement .bodyElements
  | _, .rule =>
      located <| expecting .rule do
        let weight ← optional do
          let weight ← family .weight
          space
          return weight
        let (conclusion, premises) ← sides family
        space
        token "."
        return {
          head := conclusion
          body := premises ++ (weight.map BodyElement.theory).toList }
  | _, .weakConstraint =>
      located <| expecting .weakConstraint do
        token ":~"
        space
        commit do
          let body ← family .body
          spacedToken "."
          token "["
          space
          let weight ← family .term
          let priority ← optional do spacedToken "@"; family .term
          let terms ← family.loop .terms
          space
          token "]"
          return { body, weight, priority := priority.getD (.number 0), terms }
  | _, .statement =>
      expecting .statement <| firstOf
        [do return .directive (← family .directive),
        do return .weakConstraint (← family .weakConstraint),
        do return .rule (← family .rule)]

def Loop.equation {α : Type} (loop : Loop α) : Parser (List α) :=
  roundThen (loop.round family.production) (family.loop loop)

/-- Programs, for any parsers in the place of the productions and loops. -/
def Family.program : Parser Program := do
  space
  family.loop .statements

def Family.singleStatement : Parser Statement := do
  space
  let statement ← family .statement
  space
  return statement

end Equations

theorem program_eq : parsers.program = program := rfl

theorem singleStatement_eq : parsers.singleStatement = singleStatement := rfl

/-! Progress. -/

theorem consumes_infixOperator : infixOperator.Consumes := by
  refine .after fun _ => consumes_firstOf ?_
  rw [List.forall_iff_forall_mem]
  intro parser member
  obtain ⟨operator, -, rfl⟩ := List.mem_map.mp member
  refine .bind (consumes_word ?_)
  cases operator <;> decide

theorem consumes_relation : relation.Consumes := by
  refine .explain _ (consumes_firstOf ⟨?_, ?_, ?_, ?_, ?_, ?_, ?_⟩)
  all_goals exact .bind (consumes_word (by decide))

theorem consumes_theoryAtom : theoryAtom.Consumes :=
  .located (.explain _ (.bind (consumes_char _)))

theorem consumes_bodyElement : bodyElement.Consumes :=
  .explain _ (consumes_firstOf ⟨.bind consumes_theoryAtom,
    .bind (.located (.bind consumes_literal))⟩)

theorem Production.consumes {α : Type} (production : Production α) :
    production.parser.Consumes := by
  cases production with
  | lowercaseName => exact consumes_name _
  | variableName => exact .located (.explain _ (.bind (consumes_name _)))
  | integer => exact consumes_integer
  | quotedText => exact consumes_quotedText
  | infixOperator => exact consumes_infixOperator
  | relation => exact consumes_relation
  | aggregateFunction =>
      exact .convert (.after fun _ => .after fun _ => .bind (.bind (consumes_char _)))
  | negation => exact .bind (consumes_word (by decide))
  | weight =>
      exact .explain _ (.after fun _ => .after fun _ => .bind (consumes_char _))
  | directive => exact consumes_directive
  | arguments => exact consumes_arguments _
  | functionTerm => exact .located (.bind (consumes_name _))
  | tuple => exact .bind (consumes_arguments _)
  | primary => exact consumes_primary _
  | operand => exact consumes_operand _
  | operation strength => exact consumes_operation strength
  | term => exact consumes_term
  | boolean => exact consumes_boolean
  | comparison => exact consumes_comparison
  | predicate => exact consumes_predicate
  | leftGuard => exact .bind consumes_term
  | rightGuard => exact .after fun _ => .bind consumes_term
  | aggregate => exact consumes_aggregate _
  | bodyAggregate => exact consumes_bodyAggregate _
  | atom => exact consumes_atom _
  | literal => exact consumes_literal
  | conditional => exact .located (.bind consumes_literal)
  | element => exact .bind (.bind consumes_term)
  | theoryAtom => exact consumes_theoryAtom
  | head =>
      exact .explain _ (consumes_firstOf ⟨.bind consumes_theoryAtom,
        .bind (consumes_aggregate _), .bind consumes_literal⟩)
  | bodyElement => exact consumes_bodyElement
  | body => exact .bind consumes_bodyElement
  | rule => exact consumes_rule
  | weakConstraint => exact consumes_weakConstraint
  | statement => exact consumes_statement

/-- A round of a loop that answers has read something: an item, or the separator in front of it. -/
theorem Loop.advances {α : Type} (loop : Loop α) : (loop.round Production.parser).Advances := by
  have comma : (spacedToken ",").Consumes := consumes_spacedToken (by decide)
  have semicolon : (spacedToken ";").Consumes := consumes_spacedToken (by decide)
  cases loop with
  | spaces => exact .optional consumes_spaceItem
  | textParts =>
      exact .optional (consumes_firstOf ⟨consumes_takeWhile1 _ _, .bind (consumes_char _)⟩)
  | operators strength => exact .bind (.optional consumes_infixOperator) advances_none
  | terms => exact .optional (.bind comma)
  | literals => exact .optional (.bind comma)
  | conditionals => exact .optional (.bind semicolon)
  | elements => exact .optional (.bind semicolon)
  | bodyElements => exact .optional (.bind (consumes_firstOf ⟨comma, semicolon⟩))
  | statements =>
      refine .after fun isEnd => ?_
      cases isEnd with
      | true => exact advances_none
      | false =>
          have item : (spacedStatement statement).Consumes :=
            .bind (.recover consumes_statement fun _ _ _ _ aborted => by cases aborted)
          have answer : (do return some (← spacedStatement statement) :
              Parser (Option Statement)).Consumes := .bind item
          exact fun cursor value next accepted => answer cursor (some value) next accepted

/-! The parsers satisfy the equations. -/

theorem Production.equation_parsers {α : Type} (production : Production α) :
    production.equation parsers = production.parser := by
  cases production with
  | operation strength => exact (operation_eq strength).symm
  | literal => exact literal_eq.symm
  | _ => rfl

theorem Loop.equation_parsers {α : Type} (loop : Loop α) : loop.equation parsers = loop.parser :=
  loop.advances.rounds_eq.symm

end SoftRules.Grammar
