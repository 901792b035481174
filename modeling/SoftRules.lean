import SoftRules.CommandLine.Directory
import SoftRules.CommandLine.LogFilter
import SoftRules.CommandLine.Options
import SoftRules.CommandLine.Run
import SoftRules.Encoding.Error
import SoftRules.Encoding.Logged
import SoftRules.Encoding.Mode
import SoftRules.Encoding.Penalty
import SoftRules.Encoding.Plog
import SoftRules.Encoding.Profile
import SoftRules.Encoding.Session
import SoftRules.Encoding.Treatment
import SoftRules.Encoding.Weight
import SoftRules.Grammar.Literal
import SoftRules.Grammar.Space
import SoftRules.Grammar.Statement
import SoftRules.Grammar.Term
import SoftRules.Language.Component
import SoftRules.Language.Digest
import SoftRules.Language.Equality
import SoftRules.Language.Kind
import SoftRules.Language.Literal
import SoftRules.Language.Operator
import SoftRules.Language.Printer
import SoftRules.Language.Statement
import SoftRules.Language.Term
import SoftRules.Language.Visitor
import SoftRules.Log
import SoftRules.Number.Decimal
import SoftRules.Number.Dyadic
import SoftRules.Number.Integer
import SoftRules.Number.Logarithm
import SoftRules.Number.Power
import SoftRules.Number.Shortest
import SoftRules.Parser.Basic
import SoftRules.Parser.Error
import SoftRules.Source.Position
import SoftRules.Source.Span
import SoftRules.Text.Blank
import SoftRules.Main
import SoftRules.Proofs.Encoding.Profile
import SoftRules.Proofs.Semantics.Ground
import SoftRules.Proofs.Semantics.StableModel
import SoftRules.Proofs.Encoding.GroundRule
import SoftRules.Proofs.Encoding.GroundReading
import SoftRules.Proofs.Encoding.ChoiceSemantics
import SoftRules.Proofs.Encoding.MarkSemantics
import SoftRules.Proofs.Encoding.GuardedHeads
import SoftRules.Proofs.Grammar.Recursion
import SoftRules.Proofs.Parser.Reading
import SoftRules.Proofs.Grammar.Space
import SoftRules.Proofs.Language.Erasure
import SoftRules.Proofs.Grammar.Lexeme
import SoftRules.Proofs.Grammar.Operator
import SoftRules.Proofs.Grammar.Term
import SoftRules.Proofs.Grammar.LiteralText
import SoftRules.Proofs.Grammar.Guard
import SoftRules.Proofs.Grammar.Atom
import SoftRules.Proofs.Grammar.Literal
import SoftRules.Proofs.Grammar.Body
import SoftRules.Proofs.Grammar.Difference
import SoftRules.Proofs.Grammar.Head
import SoftRules.Proofs.Grammar.Weight
import SoftRules.Proofs.Grammar.Statement
import SoftRules.Proofs.Grammar.Accepted
import SoftRules.Proofs.Language.Plain
import SoftRules.Proofs.Encoding.ProperProfile
import SoftRules.Proofs.Encoding.ProperOutput
import SoftRules.Proofs.Encoding.Indices
import SoftRules.Proofs.Encoding.AnnotationFree
import SoftRules.Proofs.Encoding.KeyVariables
import SoftRules.Proofs.Grammar.ExactLiteral
import SoftRules.Proofs.Grammar.ExactStatement
import SoftRules.Proofs.Encoding.Requests
import SoftRules.Proofs.Encoding.Sketches
import SoftRules.Proofs.Grammar.Pieces
import SoftRules.Proofs.Grammar.Spans
import SoftRules.Proofs.Parser.Lockstep
import SoftRules.Proofs.Grammar.Coupling
import SoftRules.Proofs.Grammar.Crossing
import SoftRules.Proofs.Grammar.CoupledTerm
import SoftRules.Proofs.Grammar.CoupledLiteral
import SoftRules.Proofs.Grammar.CoupledRule
import SoftRules.Proofs.Grammar.Locality
import SoftRules.Proofs.Grammar.Passage
import SoftRules.Proofs.Grammar.Ranges
import SoftRules.Proofs.Grammar.FirstFailure
import SoftRules.Proofs.Encoding.ErasedRule
import SoftRules.Proofs.Encoding.ErasedProgram
import SoftRules.Proofs.Grammar.Placement
import SoftRules.Proofs.Encoding.Refusals
import SoftRules.Proofs.Encoding.ErrorOrigins
import SoftRules.Proofs.Parser.Blame
import SoftRules.Proofs.Grammar.Complaints
import SoftRules.Proofs.Grammar.Continuation
import SoftRules.Proofs.Grammar.Concatenation
import SoftRules.Proofs.Grammar.TermRoundTrip
import SoftRules.Proofs.Encoding.RuleReading
import SoftRules.Proofs.Encoding.Readability
import SoftRules.Proofs.Encoding.Fallbacks
import SoftRules.Proofs.Encoding.BodyOrder
import SoftRules.Proofs.Number.Numeral
import SoftRules.Proofs.Number.Rounding
import SoftRules.Proofs.Number.Spelling
import SoftRules.Proofs.Grammar.WeightPrefix
import SoftRules.Proofs.Language.Parts
import SoftRules.Proofs.Grammar.Layout
import SoftRules.Proofs.Grammar.OriginTree
import SoftRules.Proofs.Encoding.Violation
import SoftRules.Proofs.CommandLine.Directory
import SoftRules.Proofs.CommandLine.Watching
import SoftRules.Proofs.CommandLine.AllOrNothing
import SoftRules.Proofs.Language.Substitution
import SoftRules.Proofs.Language.Tour
import SoftRules.Proofs.Language.Walk
import SoftRules.Proofs.Language.Digest
import SoftRules.Proofs.Language.Hashing
import SoftRules.Proofs.Semantics.Switch
import SoftRules.Proofs.Encoding.SwitchSemantics
import SoftRules.Proofs.Encoding.WeightRange
import SoftRules.Proofs.Encoding.Probability
import SoftRules.Proofs.Parser.Progress
import SoftRules.Proofs.Grammar.Equations
import SoftRules.Proofs.Grammar.Termination
import SoftRules.Proofs.Encoding.Faults
