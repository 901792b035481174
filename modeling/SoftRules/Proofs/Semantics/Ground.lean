import SoftRules.Encoding.Treatment
import SoftRules.Language.Statement

/-!
Ground programs. A statement without variables, arithmetic and comparisons denotes a ground rule
or a ground penalty, whatever the origins of its parts.

A rule has an atom, `#false` or a choice as its head. Aggregates count the atoms among their
elements; in a body they may stand only below a negation, so that they never support anything.
-/

set_option autoImplicit false

namespace SoftRules

inductive Value where
  | number (value : Int)
  | text (value : String)
  | function (name : String) (arguments : List Value)

/-- An atom or, if it `isOpposite`, the classical negation of one. -/
structure GroundAtom where
  isOpposite : Bool := false
  name : String
  arguments : List Value

/-- The classical negation of an atom. -/
def GroundAtom.opposite (atom : GroundAtom) : GroundAtom :=
  { atom with isOpposite := !atom.isOpposite }

/-- A set of atoms with bounds on how many of them hold. -/
structure GroundAggregate where
  left : Option (Relation × Int)
  elements : List GroundAtom
  right : Option (Relation × Int)

inductive GroundFormula where
  | atom (content : GroundAtom)
  | truth (value : Bool)
  | count (content : GroundAggregate)

structure GroundLiteral where
  sign : Sign
  formula : GroundFormula

inductive GroundHead where
  | atom (content : GroundAtom)
  | falsity
  | choice (content : GroundAggregate)

structure GroundRule where
  head : GroundHead
  body : List GroundLiteral

/-- What is charged, and the terms that tell one charge from another. -/
structure Charge where
  weight : Int
  priority : Int
  terms : List Value

/-- A charge that is due if the body holds. -/
structure GroundPenalty where
  body : List GroundLiteral
  charge : Charge

mutual

/-- The value of a term without variables and operations. -/
def Term.value? : Term → Option Value
  | .var _ => none
  | .symbol (.number value) _ => some (.number value)
  | .symbol (.text value) _ => some (.text value)
  | .function name arguments _ => (Term.values? arguments).map (Value.function name)
  | .operation _ _ _ => none

def Term.values? : List Term → Option (List Value)
  | [] => some []
  | term :: terms => do return (← term.value?) :: (← Term.values? terms)

end

/-- The atom that a term stands for. -/
def Term.groundAtom? : Term → Option GroundAtom
  | .function name arguments _ =>
      if name = "" then none
      else (Term.values? arguments).map fun values => { name, arguments := values }
  | .operation .negation [.function name arguments _] _ =>
      if name = "" then none
      else (Term.values? arguments).map fun values =>
        { isOpposite := true, name, arguments := values }
  | _ => none

/-- A bound must be an integer. -/
def Guard.ground? (guard : Guard) : Option (Relation × Int) :=
  match guard.term with
  | .symbol (.number value) _ => some (guard.relation, value)
  | _ => none

def Guard.groundOption? : Option Guard → Option (Option (Relation × Int))
  | none => some none
  | some guard => guard.ground?.map some

/-- The atom of an element without condition and sign. -/
def Conditional.ground? : Conditional Literal → Option GroundAtom
  | ⟨⟨.plain, .predicate term _, _⟩, [], _⟩ => term.groundAtom?
  | _ => none

def Aggregate.ground? (aggregate : Aggregate Literal) : Option GroundAggregate := do
  let left ← Guard.groundOption? aggregate.left
  let elements ← aggregate.elements.mapM Conditional.ground?
  let right ← Guard.groundOption? aggregate.right
  return { left, elements, right }

def Literal.ground? : Literal → Option GroundLiteral
  | ⟨sign, .predicate term _, _⟩ => term.groundAtom?.map fun atom => ⟨sign, .atom atom⟩
  | ⟨sign, .boolean value _, _⟩ => some ⟨sign, .truth value⟩
  | ⟨.plain, .aggregate _, _⟩ => none
  | ⟨sign, .aggregate content, _⟩ => content.ground?.map fun aggregate => ⟨sign, .count aggregate⟩
  | _ => none

def Head.ground? : Head → Option GroundHead
  | .literal ⟨.plain, .predicate term _, _⟩ => term.groundAtom?.map .atom
  | .literal ⟨.plain, .boolean false _, _⟩ => some .falsity
  | .aggregate content => content.ground?.map .choice
  | _ => none

def BodyElement.ground? : BodyElement → Option GroundLiteral
  | .literal content => content.ground?
  | _ => none

def Rule.ground? (rule : Rule) : Option GroundRule := do
  return { head := ← rule.head.ground?, body := ← rule.body.mapM BodyElement.ground? }

def Term.integer? : Term → Option Int
  | .symbol (.number value) _ => some value
  | _ => none

def WeakConstraint.ground? (constraint : WeakConstraint) : Option GroundPenalty := do
  let body ← constraint.body.mapM BodyElement.ground?
  let weight ← constraint.weight.integer?
  let priority ← constraint.priority.integer?
  let terms ← Term.values? constraint.terms
  return { body, charge := { weight, priority, terms } }

namespace Program

/-- Every rule and every weak constraint of the program has a ground reading. -/
def IsGround (program : Program) : Prop :=
  ∀ statement ∈ program,
    match statement with
    | .rule rule => rule.ground?.isSome
    | .weakConstraint constraint => constraint.ground?.isSome
    | .directive _ => True

/-- The ground rules of a program. -/
def groundRules (program : Program) : List GroundRule :=
  program.filterMap fun statement =>
    match statement with
    | .rule rule => rule.ground?
    | _ => none

/-- The ground penalties of a program. -/
def groundPenalties (program : Program) : List GroundPenalty :=
  program.filterMap fun statement =>
    match statement with
    | .weakConstraint constraint => constraint.ground?
    | _ => none

theorem groundPenalties_append (first second : Program) :
    groundPenalties (first ++ second) = groundPenalties first ++ groundPenalties second :=
  List.filterMap_append

end Program

end SoftRules
