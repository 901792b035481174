import SoftRules.Encoding.Weight

/-!
Errors of the encoding, with the texts shown to the user.
-/

set_option autoImplicit false

namespace SoftRules

/-- What is wrong with an evidence annotation. -/
inductive EvidenceFault where
  | argumentCount
  | notAnAtom
  | unusableHead (head : String)
  deriving DecidableEq, Repr

def EvidenceFault.message : EvidenceFault → String
  | argumentCount => "expected one or two arguments"
  | notAnAtom => "first argument must be an atom"
  | unusableHead head => "cannot use `" ++ head ++ "` as evidence"

/-- What is wrong with a P-log annotation. -/
inductive PlogFault where
  | notTheHead (name : String)
  | noElements (name : String)
  | notAnAtom (element : String)
  | noProbability
  | invalidProbability (error : WeightError)
  | invalidObservation (guard : String)
  | noStatements (rule : String)
  deriving DecidableEq, Repr

def PlogFault.message : PlogFault → String
  | notTheHead name => "`&" ++ name ++ "` must be the head of its rule"
  | noElements name => "`&" ++ name ++ "` requires at least one element"
  | notAnAtom element => "element `" ++ element ++ "` is not an atom"
  | noProbability => "expected a probability of the form `= p`"
  | invalidProbability error => "invalid probability, " ++ error.message
  | invalidObservation guard => "expected `= true` or `= false`, found `" ++ guard ++ "`"
  | noStatements rule => "conversion of `" ++ rule ++ "` produced no statements"

namespace EncodingError

inductive Cause where
  | weight (error : WeightError)
  | unsupported (name : String) (arity : Nat)
  | multipleWeights
  | evidence (fault : EvidenceFault)
  | plog (fault : PlogFault)
  | annotationHead (name : String)
  deriving DecidableEq, Repr

namespace Cause

def message : Cause → String
  | weight error => error.message
  | unsupported name arity =>
      "unsupported theory annotation: `&" ++ name ++ "/" ++ toString arity ++ "`"
  | multipleWeights => "rule carries more than one weight annotation"
  | evidence fault => "malformed evidence: " ++ fault.message
  | plog fault => "malformed P-log annotation: " ++ fault.message
  | annotationHead name => "`&" ++ name ++ "` used in rule head"

def note? : Cause → Option String
  | weight error => some error.note
  | unsupported _ _ =>
      some ("supported annotations are query, evidence, random, pr, obs, do, weight/1, log/1 " ++
        "and problog/1")
  | multipleWeights => some "a rule may use at most one of weight, log and problog"
  | evidence _ => some "evidence is written as &evidence(atom) or &evidence(atom, false)"
  | plog _ => none
  | annotationHead _ => some "weights are attached to the rule body"

def code : Cause → Nat
  | weight error => error.code
  | unsupported _ _ => 203
  | multipleWeights => 204
  | evidence _ => 205
  | plog _ => 206
  | annotationHead _ => 207

end Cause

end EncodingError

structure EncodingError where
  cause : EncodingError.Cause
  origin : Origin
  deriving DecidableEq, Repr

end SoftRules
