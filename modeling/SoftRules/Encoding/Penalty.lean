import SoftRules.Encoding.Mode
import SoftRules.Encoding.Profile
import SoftRules.Language.Kind

/-!
The penalty encoding of weighted rules. The rule `H :- B` with index `i`, weight `w` and global
variables `X` becomes a choice and a weak constraint,

    { H } :- B.
    :~ not H, B. [w@0,i,X]

or, if violations are marked, three statements with an atom for the violation:

    unsat(i,w,X) :- not H, B.
    H :- not unsat(i,w,X), B.
    :~ unsat(i,w,X). [w@0,i,X]

Rules without a weight are charged `1` at priority `1`.
-/

set_option autoImplicit false

namespace SoftRules

/-- The terms that tell the penalties of different rules apart. -/
structure Penalty where
  index : Term
  globals : Term
  /-- The weight as it appears in the atom for the violation. -/
  mark : Term
  weight : Term
  priority : Int

namespace Penalty

def ofProfile (index : Nat) (profile : Profile) : Penalty :=
  let index := Term.number index
  let globals := Term.tuple (profile.globals.map .var)
  match profile.weight with
  | .hard => { index, globals, mark := .text "alpha", weight := .number 1, priority := 1 }
  | .soft weight =>
      { index, globals, mark := weight.toTerm, weight := weight.toTerm, priority := 0 }

def weakConstraint (penalty : Penalty) (body : List BodyElement) (origin : Origin) : Statement :=
  .weakConstraint {
    body
    weight := penalty.weight
    priority := .number penalty.priority
    terms := [penalty.index, penalty.globals]
    origin }

/-- The atom that holds if the rule is violated. -/
def violation (penalty : Penalty) : Atom Literal :=
  .predicate (.function "unsat" [penalty.index, penalty.mark, penalty.globals])

end Penalty

/-- The literal that holds if the head does not. The sign of the head does not count, and neither
theory atoms nor unguarded aggregates have such a literal. -/
def Head.negation? : Head → Option Literal
  | .literal content => some (.negative content.atom content.origin)
  | .aggregate content =>
      if content.isGuarded then some (.negative (.aggregate content) content.origin) else none
  | .theory _ => none

/-- The choice that leaves the head open. There is none for `#false`. -/
def Head.choice? : Head → Option (Aggregate Literal)
  | .literal content =>
      if content.atom.isFalse then none
      else some (.choice [{ literal := content }] content.origin)
  | .aggregate content => some (.choice content.elements content.origin)
  | .theory _ => none

/-- The encoding with an atom for the violation of the rule. -/
def markedEncoding (penalty : Penalty) (origin : Origin) (head : Head) (notHead : Literal)
    (body : List BodyElement) : List Statement :=
  let violated := Literal.positive penalty.violation notHead.origin
  let notViolated := Literal.negative penalty.violation notHead.origin
  [.rule { head := .literal violated, body := .literal notHead :: body, origin },
    .rule { head, body := .literal notViolated :: body, origin },
    penalty.weakConstraint [.literal violated] origin]

/-- The atom that switches the penalties of soft rules on. -/
def switchLiteral (origin : Origin) : Literal :=
  .positive (.predicate (.constant "ext_helper")) origin

/-- The encoding with a choice, which a constraint does not need. -/
def choiceEncoding (mode : Mode) (penalty : Penalty) (origin : Origin) (head : Head)
    (notHead : Literal) (body : List BodyElement) : List Statement :=
  let switch :=
    if mode.switchPenalties && penalty.priority == 0 then
      [BodyElement.literal (switchLiteral head.origin)]
    else []
  match head.choice? with
  | some choice =>
      [.rule { head := .aggregate choice, body, origin },
        penalty.weakConstraint (switch ++ .literal notHead :: body) origin]
  | none => [penalty.weakConstraint (switch ++ body) origin]

/-- The statements that take the place of a rule. An unguarded choice cannot be violated and is
kept. -/
def encodeRule (mode : Mode) (index : Nat) (origin : Origin) (rule : ProfiledRule) :
    Logged (List Statement) := do
  let penalty := Penalty.ofProfile index rule.profile
  let note (message : String) := Logged.write .debug ("rule " ++ toString index ++ ": " ++ message)
  match rule.head, rule.head.negation? with
  | .theory remark, _ => Logged.fail (.annotationHead remark.name) remark.origin
  | head, none =>
      note "choice without bounds is kept"
      return [.rule { head, body := rule.body, origin }]
  | head, some notHead =>
      if mode.markViolations then
        note ("encoding " ++ head.kind.name ++ " head with unsat atom")
        return markedEncoding penalty origin head notHead rule.body
      else
        let statements := choiceEncoding mode penalty origin head notHead rule.body
        note ("encoding with " ++ toString (statements.length - 1) ++
          " choice rule(s) and a weak constraint")
        return statements

end SoftRules
