import SoftRules.Proofs.Encoding.Session
import SoftRules.Proofs.Semantics.StableModel

/-!
The encoding of ground rules that may carry a weight.

The annotation of such a rule becomes `#true` and its variables are none, so the statements that
take its place can be written down from the rule and its index alone (`Rule.expansion`). Whether a
program can be encoded depends on its weights only, and not on the kind of encoding
(`encode_ground_ok_iff`).
-/

set_option autoImplicit false

namespace SoftRules

/-- The formula and the argument of an annotation that gives a weight. -/
def BodyElement.annotation? : BodyElement → Option (WeightFormula × Term)
  | .theory remark =>
      match WeightFormula.ofName? remark.name, remark.arguments with
      | some formula, [argument] => some (formula, argument)
      | _, _ => none
  | _ => none

/-- The element with `#true` in the place of an annotation. -/
def BodyElement.neutral (element : BodyElement) : BodyElement :=
  if element.annotation?.isSome then .literal { Literal.boolean true with origin := element.origin }
  else element

namespace Rule

def annotations (rule : Rule) : List (WeightFormula × Term) :=
  rule.body.filterMap BodyElement.annotation?

/-- The rule without its annotations. -/
def unannotated (rule : Rule) : Rule :=
  { rule with body := rule.body.filter (·.annotation?.isNone) }

/-- Facts stay as they are, and so do rules without a weight unless they are encoded as well. -/
def isEncoded (mode : Mode) (rule : Rule) : Bool :=
  !rule.body.isEmpty && (!rule.annotations.isEmpty || mode.encodeHard)

/-- The weight that the only annotation gives. -/
def ruleWeight (power : Int) (rule : Rule) : RuleWeight :=
  match rule.annotations with
  | [(formula, argument)] =>
      match Weight.ofFormula formula argument power with
      | .ok weight => .soft weight
      | .error _ => .hard
  | _ => .hard

/-- The rule with its annotation read. -/
def profiled (power : Int) (rule : Rule) : ProfiledRule :=
  { head := rule.head
    body := rule.body.map BodyElement.neutral
    profile := { weight := rule.ruleWeight power } }

/-- The statements for a ground rule with the given index. -/
def expansion (mode : Mode) (index : Nat) (rule : Rule) : List Statement :=
  if rule.isEncoded mode then (rule.profiled mode.power).expansion mode index rule.origin
  else [.rule rule]

end Rule

/-! Ground parts of a rule have no variables. -/

mutual

theorem Term.vars_eq_nil : (term : Term) → {value : Value} → term.value? = some value →
    term.vars = []
  | .var _, _, ground => by cases ground
  | .symbol _ _, _, _ => rfl
  | .function name arguments origin, _, ground => by
      simp only [Term.value?, Option.map_eq_some_iff] at ground
      obtain ⟨values, ground, _⟩ := ground
      exact Term.varsOf_eq_nil arguments ground
  | .operation _ _ _, _, ground => by cases ground

theorem Term.varsOf_eq_nil : (terms : List Term) → {values : List Value} →
    Term.values? terms = some values → Term.varsOf terms = []
  | [], _, _ => rfl
  | term :: terms, _, ground => by
      simp only [Term.values?, Option.bind_eq_bind, Option.bind_eq_some_iff] at ground
      obtain ⟨value, first, values, others, _⟩ := ground
      simp [Term.varsOf, Term.vars_eq_nil term first, Term.varsOf_eq_nil terms others]

end

theorem Term.vars_eq_nil_of_groundAtom {term : Term} {atom : GroundAtom}
    (ground : term.groundAtom? = some atom) : term.vars = [] := by
  unfold Term.groundAtom? at ground
  split at ground
  · split at ground
    · cases ground
    · obtain ⟨values, ground, _⟩ := Option.map_eq_some_iff.mp ground
      exact Term.varsOf_eq_nil _ ground
  · split at ground
    · cases ground
    · obtain ⟨values, ground, _⟩ := Option.map_eq_some_iff.mp ground
      simp [Term.vars, Term.varsOf, Term.varsOf_eq_nil _ ground]
  · cases ground

theorem Guard.varsOf_eq_nil {guard : Option Guard} {bound : Option (Relation × Int)}
    (ground : Guard.groundOption? guard = some bound) : Guard.varsOf guard = [] := by
  cases guard with
  | none => rfl
  | some guard =>
      simp only [Guard.groundOption?, Option.map_eq_some_iff] at ground
      obtain ⟨bound, ground, _⟩ := ground
      obtain ⟨relation, term⟩ := guard
      unfold Guard.ground? at ground
      split at ground
      · next number => simp only at number; subst number; rfl
      · cases ground

theorem Aggregate.guardVariables_eq_nil {aggregate : Aggregate Literal} {content : GroundAggregate}
    (ground : aggregate.ground? = some content) :
    guardVariables aggregate.left aggregate.right = [] := by
  simp only [Aggregate.ground?, Option.bind_eq_bind, Option.bind_eq_some_iff] at ground
  obtain ⟨left, leftGround, _, _, right, rightGround, _⟩ := ground
  rw [← Guard.varsOf_append_varsOf, Guard.varsOf_eq_nil leftGround, Guard.varsOf_eq_nil rightGround]
  rfl

theorem Literal.globals_eq_nil {literal : Literal} {content : GroundLiteral}
    (ground : literal.ground? = some content) : literal.atom.globals = [] := by
  unfold Literal.ground? at ground
  split at ground
  · obtain ⟨atom, ground, _⟩ := Option.map_eq_some_iff.mp ground
    exact Term.vars_eq_nil_of_groundAtom ground
  · rfl
  · cases ground
  · obtain ⟨aggregate, ground, _⟩ := Option.map_eq_some_iff.mp ground
    exact Aggregate.guardVariables_eq_nil ground
  · cases ground

theorem Head.ground_cases {head : Head} {content : GroundHead}
    (ground : head.ground? = some content) :
    (∃ literal, head = .literal literal ∧ literal.atom.globals = []) ∨
      ∃ aggregate, head = .aggregate aggregate ∧
        guardVariables aggregate.left aggregate.right = [] := by
  unfold Head.ground? at ground
  split at ground
  · obtain ⟨atom, ground, _⟩ := Option.map_eq_some_iff.mp ground
    exact .inl ⟨_, rfl, Term.vars_eq_nil_of_groundAtom ground⟩
  · exact .inl ⟨_, rfl, rfl⟩
  · obtain ⟨aggregate, ground, _⟩ := Option.map_eq_some_iff.mp ground
    exact .inr ⟨_, rfl, Aggregate.guardVariables_eq_nil ground⟩
  · cases ground

/-! The profile of a ground rule. -/

/-- A name is not both that of a treatment and that of a weight. -/
theorem Treatment.ofName?_eq_none {name : String} {formula : WeightFormula}
    (named : WeightFormula.ofName? name = some formula) : Treatment.ofName? name = none := by
  have spelled := List.find?_some named
  have spelled : formula.name = name := by simpa using spelled
  subst spelled
  cases formula <;> decide

/-- An element of the body of a ground rule. -/
def BodyElement.IsGroundOrWeight (element : BodyElement) : Prop :=
  element.annotation?.isSome ∨ element.ground?.isSome

theorem BodyElement.neutral_of_ground {element : BodyElement} (ground : element.ground?.isSome) :
    element.neutral = element ∧ element.annotation? = none := by
  cases element with
  | literal content => exact ⟨rfl, rfl⟩
  | conditional content => exact ⟨rfl, rfl⟩
  | theory remark => cases ground

/-- What reading one element of a ground rule does. -/
theorem BodyElement.Profiled.ground {power : Int} {profile after : Profile}
    {element element' : BodyElement} (profiled : element.Profiled power profile element' after)
    (ground : element.IsGroundOrWeight) :
    element' = element.neutral ∧
      (element.annotation? = none ∧ after = profile ∨
        ∃ formula argument weight, element.annotation? = some (formula, argument) ∧
          profile.weight = .hard ∧ Weight.ofFormula formula argument power = .ok weight ∧
          after = { profile with weight := .soft weight }) := by
  cases profiled with
  | literal content =>
      refine ⟨rfl, .inl ⟨rfl, ?_⟩⟩
      obtain weighed | ground := ground
      · cases weighed
      · obtain ⟨literal, ground⟩ := Option.isSome_iff_exists.mp ground
        rw [Literal.globals_eq_nil ground, Profile.meet_nil]
  | conditional content => exact ⟨rfl, .inl ⟨rfl, rfl⟩⟩
  | @theory remark reading _ read =>
      obtain weighed | ground := ground
      · obtain ⟨⟨formula, argument⟩, weighed⟩ := Option.isSome_iff_exists.mp weighed
        have parts : WeightFormula.ofName? remark.name = some formula ∧
            remark.arguments = [argument] := by
          simp only [BodyElement.annotation?] at weighed
          split at weighed
          · next named single =>
              cases weighed
              exact ⟨named, single⟩
          · cases weighed
        have unnamed := Treatment.ofName?_eq_none parts.1
        cases read with
        | treatment named other => simp [unnamed] at named
        | evidence named stated => simp [unnamed] at named
        | @weight formula' argument' weight _ named single first computed =>
            rw [parts.1] at named
            rw [parts.2] at single
            cases named
            cases single
            refine ⟨by simp [BodyElement.neutral, weighed, Reading.toBodyElement,
              BodyElement.origin], .inr ⟨formula, argument, weight, weighed, first, computed, rfl⟩⟩
      · cases ground

/-- What reading the body of a ground rule does. A second weight would have been refused. -/
theorem BodyElement.ProfiledAll.ground {power : Int} {profile after : Profile}
    {body body' : List BodyElement}
    (profiled : BodyElement.ProfiledAll power profile body body' after)
    (ground : ∀ element ∈ body, element.IsGroundOrWeight) :
    body' = body.map BodyElement.neutral ∧
      (body.filterMap BodyElement.annotation? = [] ∧ after = profile ∨
        ∃ formula argument weight,
          body.filterMap BodyElement.annotation? = [(formula, argument)] ∧
          profile.weight = .hard ∧ Weight.ofFormula formula argument power = .ok weight ∧
          after = { profile with weight := .soft weight }) := by
  induction profiled with
  | nil profile => exact ⟨rfl, .inl ⟨rfl, rfl⟩⟩
  | @cons profile middle after element element' body body' first others inductionHypothesis =>
      obtain ⟨rebuilt, firstCase⟩ := first.ground (ground element (by simp))
      obtain ⟨othersRebuilt, othersCase⟩ :=
        inductionHypothesis fun element member => ground element (by simp [member])
      refine ⟨by rw [rebuilt, othersRebuilt, List.map_cons], ?_⟩
      obtain ⟨plain, rfl⟩ | ⟨formula, argument, weight, weighed, hard, computed, rfl⟩ := firstCase
      · simpa [List.filterMap_cons, plain] using othersCase
      · obtain ⟨none, rfl⟩ | ⟨_, _, _, _, second, _⟩ := othersCase
        · exact .inr ⟨formula, argument, weight, by simp [weighed, none],
            hard, computed, rfl⟩
        · cases second

namespace Rule

/-- The rule is ground once its weight is left out. -/
def IsGround (rule : Rule) : Prop := rule.unannotated.ground?.isSome

theorem mem_of_mapM {α β : Type} {read? : α → Option β} {list : List α} {values : List β}
    (read : list.mapM read? = some values) : ∀ element ∈ list, (read? element).isSome := by
  induction list generalizing values with
  | nil => simp
  | cons first others inductionHypothesis =>
      simp only [List.mapM_cons, Option.bind_eq_bind, Option.bind_eq_some_iff] at read
      obtain ⟨value, firstRead, others', othersRead, _⟩ := read
      intro element member
      obtain rfl | member := List.mem_cons.mp member
      · simp [firstRead]
      · exact inductionHypothesis othersRead element member

variable {power : Int} {rule : Rule}

theorem ground_parts {plain : GroundRule} (ground : rule.unannotated.ground? = some plain) :
    rule.head.ground? = some plain.head ∧
      rule.unannotated.body.mapM BodyElement.ground? = some plain.body := by
  simp only [Rule.ground?, Option.bind_eq_bind, Option.bind_eq_some_iff] at ground
  obtain ⟨head, headGround, body, bodyGround, equal⟩ := ground
  cases equal
  exact ⟨headGround, bodyGround⟩

theorem IsGround.body (ground : rule.IsGround) :
    ∀ element ∈ rule.body, element.IsGroundOrWeight := by
  obtain ⟨plain, ground⟩ := Option.isSome_iff_exists.mp ground
  intro element member
  cases weighed : element.annotation? with
  | some annotation => exact .inl (by simp [weighed])
  | none =>
      apply Or.inr
      apply mem_of_mapM (ground_parts ground).2
      simp [Rule.unannotated, member, weighed]

theorem IsGround.head_not_theory (ground : rule.IsGround) : rule.head.isTheory = false := by
  obtain ⟨plain, ground⟩ := Option.isSome_iff_exists.mp ground
  obtain ⟨literal, shape, _⟩ | ⟨aggregate, shape, _⟩ := Head.ground_cases (ground_parts ground).1
  · rw [shape]
    rfl
  · rw [shape]
    rfl

/-- A ground rule keeps its head, its weight becomes `#true`, and nothing else is recorded. -/
theorem IsGround.profile_ok (ground : rule.IsGround) {profiled : ProfiledRule}
    (ok : (rule.profile power).result = .ok profiled) :
    profiled = rule.profiled power ∧
      (rule.ruleWeight power).isHard = rule.annotations.isEmpty := by
  obtain ⟨plain, plainGround⟩ := Option.isSome_iff_exists.mp ground
  obtain ⟨keptHead, keptBody, profile⟩ := profiled
  obtain ⟨middle, head, body⟩ := Rule.profile_ok ok
  simp only at head body
  have headKept : keptHead = rule.head ∧ middle = {} := by
    obtain ⟨literal, shape, none⟩ | ⟨aggregate, shape, none⟩ :=
      Head.ground_cases (ground_parts plainGround).1
    · rw [shape] at head ⊢
      cases head
      exact ⟨rfl, by rw [none, Profile.meet_nil]⟩
    · rw [shape] at head ⊢
      cases head
      exact ⟨rfl, by rw [none, Profile.meet_nil]⟩
  obtain ⟨bodyKept, weighed⟩ := body.ground ground.body
  obtain ⟨rfl, rfl⟩ := headKept
  change (rule.annotations = [] ∧ _) ∨ (∃ _ _ _, rule.annotations = _ ∧ _) at weighed
  subst bodyKept
  obtain ⟨none, rfl⟩ | ⟨formula, argument, weight, single, _, computed, rfl⟩ := weighed
  · exact ⟨by simp [Rule.profiled, Rule.ruleWeight, none],
      by simp [Rule.ruleWeight, none, RuleWeight.isHard]⟩
  · exact ⟨by simp [Rule.profiled, Rule.ruleWeight, single, computed],
      by simp [Rule.ruleWeight, single, computed, RuleWeight.isHard]⟩

/-- The rule has no body, or its weight can be read. -/
def IsEncodable (power : Int) (rule : Rule) : Prop :=
  rule.body = [] ∨ ∃ profiled, (rule.profile power).result = .ok profiled

/-- The session after a ground rule. Rules with a body get an index. -/
def sessionAfter (rule : Rule) (session : Session) : Session :=
  if rule.body.isEmpty then session else session.next

theorem sessionAfter_mode (rule : Rule) (session : Session) :
    (rule.sessionAfter session).mode = session.mode := by
  unfold Rule.sessionAfter
  split <;> rfl

theorem sessionAfter_index (rule : Rule) (session : Session) :
    (rule.sessionAfter session).index =
      if rule.body.isEmpty then session.index else session.index + 1 := by
  unfold Rule.sessionAfter
  split <;> rfl

theorem IsGround.isFact_iff (ground : rule.IsGround) : rule.IsFact ↔ rule.body = [] := by
  simp [Rule.IsFact, ground.head_not_theory]

theorem IsGround.of_step (ground : rule.IsGround) {session after : Session}
    {statements : List Statement} (step : session.RuleStep rule statements after) :
    rule.IsEncodable session.mode.power ∧
      statements = rule.expansion session.mode session.index ∧
      after = rule.sessionAfter session := by
  by_cases empty : rule.body = []
  · obtain ⟨rfl, rfl⟩ := step.of_fact (ground.isFact_iff.mpr empty)
    exact ⟨.inl empty, by simp [Rule.expansion, Rule.isEncoded, empty],
      by simp [Rule.sessionAfter, empty]⟩
  · have fresh : ¬ rule.IsFact := fun fact => empty (ground.isFact_iff.mp fact)
    obtain ⟨profiled, ok⟩ := step.profile_ok fresh
    obtain ⟨rfl, hard⟩ := ground.profile_ok ok
    refine ⟨.inr ⟨_, ok⟩, ?_⟩
    cases step with
    | fact fact => exact absurd fact fresh
    | query _ ok' treated =>
        cases ok.symm.trans ok'
        cases treated
    | evidence _ ok' treated =>
        cases ok.symm.trans ok'
        cases treated
    | plog _ ok' treated =>
        cases ok.symm.trans ok'
        cases treated
    | kept _ ok' _ isHard off =>
        cases ok.symm.trans ok'
        have unweighted := hard.symm.trans isHard
        exact ⟨by simp [Rule.expansion, Rule.isEncoded, unweighted, off],
          by simp [Rule.sessionAfter, empty]⟩
    | encoded _ ok' _ on =>
        cases ok.symm.trans ok'
        refine ⟨?_, by simp [Rule.sessionAfter, empty]⟩
        have isEncoded : rule.isEncoded session.mode = true := by
          obtain soft | on := on
          · have weighted := hard.symm.trans soft
            simp [Rule.isEncoded, empty, weighted]
          · simp [Rule.isEncoded, empty, on]
        rw [Rule.expansion, if_pos isEncoded]

theorem IsGround.step (ground : rule.IsGround) (session : Session)
    (encodable : rule.IsEncodable session.mode.power) :
    session.RuleStep rule (rule.expansion session.mode session.index)
      (rule.sessionAfter session) := by
  by_cases empty : rule.body = []
  · rw [Rule.expansion, Rule.sessionAfter, if_neg (by simp [Rule.isEncoded, empty]),
      if_pos (by simp [empty])]
    exact .fact (ground.isFact_iff.mpr empty)
  · have fresh : ¬ rule.IsFact := fun fact => empty (ground.isFact_iff.mp fact)
    obtain empty' | ⟨profiled, ok⟩ := encodable
    · exact absurd empty' empty
    · obtain ⟨rfl, hard⟩ := ground.profile_ok ok
      rw [Rule.sessionAfter, if_neg (by simpa using empty)]
      by_cases isEncoded : rule.isEncoded session.mode = true
      · rw [Rule.expansion, if_pos isEncoded]
        refine .encoded fresh ok rfl ?_ ground.head_not_theory
        simp only [Rule.isEncoded, Bool.and_eq_true, Bool.or_eq_true, Bool.not_eq_true'] at isEncoded
        obtain weighted | on := isEncoded.2
        · exact .inl (hard.trans weighted)
        · exact .inr on
      · rw [Rule.expansion, if_neg isEncoded]
        simp only [Rule.isEncoded, List.isEmpty_eq_false_iff.mpr empty, Bool.not_false,
          Bool.true_and, Bool.or_eq_true, Bool.not_eq_true', not_or, Bool.not_eq_false,
          Bool.not_eq_true] at isEncoded
        exact .kept fresh ok rfl (hard.trans isEncoded.1) isEncoded.2

end Rule

namespace Program

/-- The rules of a program, each with the index that is next when its turn comes. -/
def numbered (index : Nat) : Program → List (Nat × Rule)
  | [] => []
  | .rule rule :: program =>
      (index, rule) :: numbered (if rule.body.isEmpty then index else index + 1) program
  | _ :: program => numbered index program

/-- All statements are rules that are ground once their weights are left out. -/
def HasGroundRules (program : Program) : Prop :=
  ∀ statement ∈ program, ∃ rule, statement = .rule rule ∧ rule.IsGround

/-- The statements that take the place of a program of ground rules. -/
def expansion (mode : Mode) (index : Nat) (program : Program) : Program :=
  (program.numbered index).flatMap fun (index, rule) => rule.expansion mode index

variable {program output : Program} {session after : Session}

theorem HasGroundRules.tail {statement : Statement}
    (ground : HasGroundRules (statement :: program)) : program.HasGroundRules :=
  fun other member => ground other (by simp [member])

theorem expansion_cons (mode : Mode) (index : Nat) (rule : Rule) (program : Program) :
    expansion mode index (.rule rule :: program) =
      rule.expansion mode index ++
        program.expansion mode (if rule.body.isEmpty then index else index + 1) := by
  simp [expansion, numbered]

theorem HasGroundRules.of_steps (ground : program.HasGroundRules)
    (steps : session.Steps program output after) :
    (∀ rule, .rule rule ∈ program → rule.IsEncodable session.mode.power) ∧
      output = program.expansion session.mode session.index := by
  induction steps with
  | nil session => exact ⟨by simp, rfl⟩
  | @rule session middle after source program rest statements step others inductionHypothesis =>
      obtain ⟨rule, shape, isGround⟩ := ground _ (List.mem_cons_self ..)
      cases shape
      obtain ⟨encodable, rfl, rfl⟩ := isGround.of_step step
      obtain ⟨othersEncodable, rfl⟩ := inductionHypothesis ground.tail
      rw [source.sessionAfter_mode] at othersEncodable
      refine ⟨?_, ?_⟩
      · intro rule member
        obtain same | member := List.mem_cons.mp member
        · cases same
          exact encodable
        · exact othersEncodable rule member
      · rw [expansion_cons, source.sessionAfter_mode, source.sessionAfter_index]
  | other other others =>
      obtain ⟨rule, rfl, _⟩ := ground _ (List.mem_cons_self ..)
      cases other

theorem HasGroundRules.steps (ground : program.HasGroundRules) (session : Session)
    (encodable : ∀ rule, .rule rule ∈ program → rule.IsEncodable session.mode.power) :
    ∃ after, session.Steps program (program.expansion session.mode session.index) after := by
  induction program generalizing session with
  | nil => exact ⟨session, .nil session⟩
  | cons statement program inductionHypothesis =>
      obtain ⟨rule, rfl, isGround⟩ := ground _ (List.mem_cons_self ..)
      have first := isGround.step session (encodable rule (List.mem_cons_self ..))
      obtain ⟨after, others⟩ := inductionHypothesis ground.tail (rule.sessionAfter session) (by
        intro other member
        rw [rule.sessionAfter_mode]
        exact encodable other (List.mem_cons_of_mem _ member))
      refine ⟨after, ?_⟩
      rw [expansion_cons]
      rw [rule.sessionAfter_mode, rule.sessionAfter_index] at others
      exact .rule first others

/-- A program of ground rules can be encoded exactly if its weights can be read, and then each rule
is replaced by its expansion. -/
theorem encode_ground_ok_iff {mode : Mode} (ground : program.HasGroundRules) :
    (program.encode mode).result = .ok output ↔
      (∀ rule, .rule rule ∈ program → rule.IsEncodable mode.power) ∧
        output = program.expansion mode 0 := by
  rw [Program.encode_ok_iff]
  constructor
  · rintro ⟨after, steps⟩
    obtain ⟨encodable, expanded⟩ := ground.of_steps steps
    exact ⟨encodable, expanded⟩
  · rintro ⟨encodable, rfl⟩
    obtain ⟨after, steps⟩ := ground.steps { mode } encodable
    exact ⟨after, steps⟩

end Program

end SoftRules
