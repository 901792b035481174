import SoftRules.Encoding.Penalty
import SoftRules.Encoding.Plog

/-!
Sessions: the encoding of statements one after the other. Each rule that is encoded, or kept
because it has no weight, gets the next index of the session, so that the penalties of different
rules stay apart.

A session is changed in place: what is done to it before an error is not undone.
-/

set_option autoImplicit false

namespace SoftRules

structure Session where
  mode : Mode := {}
  plog : PlogEncoder := .standard mode.power
  /-- The index of the next rule. -/
  index : Nat := 0

/-- The session after one more rule has got an index. -/
def Session.next (session : Session) : Session := { session with index := session.index + 1 }

/-- What comes of asking a session for something. There is a session afterwards in any case. -/
structure Turn (α : Type) where
  outcome : Logged α
  session : Session

/-- What was asked for, with the session that gave it. -/
def Turn.result {α : Type} (turn : Turn α) : Except EncodingError (α × Session) :=
  (·, turn.session) <$> turn.outcome.result

/-- Computations that change a session. What they did before a failure is kept. -/
def Encoder (α : Type) : Type := Session → Turn α

namespace Encoder

instance : Monad Encoder where
  pure value session := ⟨pure value, session⟩
  bind step next session :=
    let turn := step session
    match turn.outcome.result with
    | .ok value =>
        let rest := next value turn.session
        ⟨⟨rest.outcome.result, turn.outcome.log ++ rest.outcome.log⟩, rest.session⟩
    | .error error => ⟨⟨.error error, turn.outcome.log⟩, turn.session⟩

instance : MonadStateOf Session Encoder where
  get session := ⟨pure session, session⟩
  set session _ := ⟨pure (), session⟩
  modifyGet change session := ⟨pure (change session).1, (change session).2⟩

instance : MonadLift Logged Encoder where
  monadLift step session := ⟨step, session⟩

end Encoder

/-- What takes the place of a statement. -/
structure Expansion where
  preceding : List Statement := []
  statement : Statement

namespace Expansion

def statements (expansion : Expansion) : List Statement :=
  expansion.preceding ++ [expansion.statement]

/-- The last statement takes the place, the others go in front of it. -/
def ofStatements? (statements : List Statement) : Option Expansion :=
  statements.getLast?.map fun statement => { preceding := statements.dropLast, statement }

/-- The statements for a rule. There must be at least one of them. -/
def ofStatements (source : Rule) (statements : List Statement) : Logged Expansion :=
  match ofStatements? statements with
  | some expansion => pure expansion
  | none => .fail (.plog (.noStatements source.render)) source.origin

end Expansion

/-- The P-log annotation in the head of a rule. -/
def Head.plogAtom (treatment : Treatment) (head : Head) : Logged TheoryAtom :=
  match head with
  | .theory remark =>
      if remark.name == treatment.name then pure remark
      else .fail (.plog (.notTheHead treatment.name)) head.origin
  | _ => .fail (.plog (.notTheHead treatment.name)) head.origin

/-- The literal that evidence forbids. -/
def ProfiledRule.forbidden (rule : ProfiledRule) : Logged Literal :=
  match rule.profile.evidence, rule.head with
  | some evidence, _ => pure evidence
  | none, .literal literal => pure literal
  | none, head => .fail (.evidence (.unusableHead head.render)) head.origin

/-- The statements for a rule with a P-log annotation. -/
def Session.encodePlog (session : Session) (source : Rule) (treatment : Treatment)
    (rule : ProfiledRule) : Logged (List Statement) := do
  let remark ← rule.head.plogAtom treatment
  match treatment with
  | .random =>
      Logged.write .debug ("converting &" ++ treatment.name ++ " rule")
      session.plog.random remark rule.body
  | .probability =>
      Logged.write .debug ("converting &" ++ treatment.name ++ " rule")
      session.plog.probability remark rule.body
  | _ =>
      if !rule.body.isEmpty then
        Logged.write .warn
          ("ignoring the body of the &" ++ treatment.name ++ " rule " ++ source.render)
      session.plog.observation remark

/-- The part of the encoding that follows the profile of the rule. The index is used up before it is
known whether there are any statements. -/
def ProfiledRule.encoder (source : Rule) (rule : ProfiledRule) : Encoder Expansion := do
  let session ← get
  match rule.profile.treatment with
  | some .query =>
      Logged.write .debug "keeping query rule"
      return { statement := .rule source }
  | some .evidence =>
      let forbidden ← rule.forbidden
      Logged.write .debug ("evidence " ++ forbidden.render ++ " becomes an integrity constraint")
      return { statement := .rule (.constraint [.literal forbidden] source.origin) }
  | some treatment =>
      let statements ← session.encodePlog source treatment rule
      Expansion.ofStatements source statements
  | none =>
      if rule.profile.weight.isHard && !session.mode.encodeHard then
        Logged.write .trace ("rule " ++ toString session.index ++ ": keeping hard rule")
        modify Session.next
        return { statement := .rule source }
      else
        let statements ← encodeRule session.mode session.index source.origin rule
        modify Session.next
        Expansion.ofStatements source statements

/-- Facts without annotations stay as they are and get no index. -/
def Rule.encoder (source : Rule) : Encoder Expansion := do
  if !source.head.isTheory && source.body.isEmpty then
    return { statement := .rule source }
  let session ← get
  let rule ← source.profile session.mode.power
  rule.encoder source

namespace Session

/-- The expansion of a rule and the session after it. -/
def encodeRule (session : Session) (source : Rule) : Turn Expansion := source.encoder session

/-- Only rules are encoded. -/
def encode (session : Session) : Statement → Turn Expansion
  | .rule rule => session.encodeRule rule
  | statement => ⟨pure { statement }, session⟩

/-- What a session makes of a program, up to the first error. -/
structure Run where
  output : Program
  session : Session
  log : List LogRecord
  error : Option EncodingError

def encodeAll (session : Session) : Program → Run
  | [] => { output := [], session, log := [], error := none }
  | statement :: program =>
      let turn := session.encode statement
      match turn.outcome.result with
      | .error error =>
          { output := [], session := turn.session, log := turn.outcome.log, error := some error }
      | .ok expansion =>
          let rest := turn.session.encodeAll program
          { rest with
            output := expansion.statements ++ rest.output
            log := turn.outcome.log ++ rest.log }

end Session

/-- The answer set program of a weighted program. -/
def Program.encode (mode : Mode) (program : Program) : Logged Program :=
  let run := ({ mode } : Session).encodeAll program
  match run.error with
  | some error => ⟨.error error, run.log⟩
  | none =>
      let message :=
        "translated program with " ++ toString run.session.index ++ " indexed rules into " ++
          toString run.output.length ++ " statements"
      ⟨.ok run.output, run.log ++ [⟨.info, message⟩]⟩

end SoftRules
