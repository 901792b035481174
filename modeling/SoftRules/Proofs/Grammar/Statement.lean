import SoftRules.Proofs.Grammar.Directive
import SoftRules.Proofs.Grammar.Weight

/-!
How statements and programs are read back from their texts. The main statement is
`Program.parse_render`: a lexical program that is faithful is read as it was written.
-/

set_option autoImplicit false

namespace SoftRules

open SoftRules.Parser SoftRules.Grammar

/-! Texts. -/

def Statement.write (statement : Statement) (rest : List Char) : List Char :=
  statement.render.toList ++ rest

section Texts

variable (rest : List Char)

theorem Statement.write_fact {content : Rule} (noBody : content.body = []) :
    (Statement.rule content).write rest = content.head.write ('.' :: rest) := by
  simp [Statement.write, Statement.render, Rule.render, noBody, Head.write]

theorem Statement.write_constraint {content : Rule} (body : content.body ≠ [])
    (isFalse : content.head.isFalse = true) :
    (Statement.rule content).write rest =
      ':' :: '-' :: ' ' :: writeBody content.body ('.' :: rest) := by
  simp [Statement.write, Statement.render, Rule.render, body, isFalse, writeBody]

theorem Statement.write_rule {content : Rule} (body : content.body ≠ [])
    (noFalse : content.head.isFalse = false) :
    (Statement.rule content).write rest =
      content.head.write (' ' :: ':' :: '-' :: ' ' :: writeBody content.body ('.' :: rest)) := by
  simp [Statement.write, Statement.render, Rule.render, body, noFalse, Head.write, writeBody]

/-- What stands behind the period of a weak constraint. -/
def WeakConstraint.writeKey (content : WeakConstraint) (rest : List Char) : List Char :=
  ' ' :: '[' :: content.weight.write
    ('@' :: writeAll [','] Term.write (content.priority :: content.terms) (']' :: rest))

theorem Statement.write_weakConstraint {content : WeakConstraint} (body : content.body ≠ []) :
    (Statement.weakConstraint content).write rest =
      ':' :: '~' :: ' ' :: writeBody content.body ('.' :: content.writeKey rest) := by
  have texts := writeAll_render "," Term.render (content.priority :: content.terms) (']' :: rest)
  change writeAll [','] Term.write (content.priority :: content.terms) (']' :: rest) = _ at texts
  rw [WeakConstraint.writeKey, texts]
  simp [Statement.write, Statement.render, WeakConstraint.render, body, writeBody, Term.write,
    Term.renderAll_eq]

theorem Statement.write_directive (content : Directive) :
    (Statement.directive content).write rest = content.text.toList ++ '.' :: rest := by
  simp [Statement.write, Statement.render, Directive.render]

/-- The text of a program: one statement a line. -/
def Program.write : Program → List Char
  | [] => []
  | statement :: program => statement.write ('\n' :: Program.write program)

theorem Program.toList_render (program : Program) : program.render.toList = program.write := by
  induction program with
  | nil => rfl
  | cons statement program inductionHypothesis =>
      rw [Program.write, ← inductionHypothesis]
      simp [Program.render, Statement.write]

end Texts

namespace Grammar

variable {text rest : List Char}

/-! Rules. -/

section Rules

/-- Nothing but a rule starts with its head and its body. -/
theorem reads_rule_parts {content : Rule} (noWeight : weight.Rejects text)
    (reads : headAndBody.Reads text ('.' :: rest) fun found =>
      found.1.erase = content.head.erase ∧
        found.2.map BodyElement.erase = content.body.map BodyElement.erase) :
    rule.Reads text rest fun found => found.erase = content.erase := by
  refine .located (.expecting _ (.bind (.optional_none (.bind noWeight)) ?_))
  rintro _ rfl
  refine .bind reads ?_
  rintro ⟨head, body⟩ ⟨sameHead, sameBody⟩
  refine .bind (Solid.reads_no_space (solid_cons (by decide) (by decide))) fun _ _ => ?_
  refine .bind (reads_token "." rest) fun _ _ => .pure fun _ => ?_
  simp only [Located.relocate, Rule.erase, sameHead, Option.map_none, Option.toList_none,
    List.append_nil, sameBody]

/-- A rule starts with a weight, with an arrow or with its head. -/
theorem rejects_rule (noWeight : weight.Rejects text) (noArrow : (token ":-").Rejects text)
    (noHead : head.Rejects text) : rule.Rejects text := by
  refine .located (.expecting _ (.after (.optional_none (.bind noWeight)) fun _ _ => .bind ?_))
  exact rejects_firstOf (.cons (.bind noArrow) (.cons (.bind noHead) .nil))

theorem reads_arrow {spaced : Bool} (solid : Solid text) :
    (spacedToken ":-").Reads (gap spaced ++ (':' :: '-' :: ' ' :: text)) text fun _ => True :=
  @Solid.reads_spacedToken _ ":-" (gap spaced) [' '] solid (solid_cons (by decide) (by decide))
    (by decide) (gap_areBlank spaced) (by simp [isSpace])

theorem rejects_arrow (refused : ':' ∉ text.head?) : (token ":-").Rejects text := by
  refine rejects_token ?_
  rintro ⟨others, rfl⟩
  exact refused rfl

theorem head_ne_colon {content : Head} (lexical : content.isLexical = true) (rest : List Char) :
    ':' ∉ (content.write rest).head? := by
  rcases Head.write_shape lexical rest with
    ⟨atom, lexical, shape⟩ | ⟨others, shape⟩ | ⟨others, shape⟩
  · rw [shape]
    exact (startsLiteral_atom lexical rest).head_ne (by decide)
  · simp [shape]
  · simp [shape]

theorem reads_rule {content : Rule} (lexicalHead : content.head.isLexical = true)
    (lexicalBody : content.body.all BodyElement.isLexical = true)
    (faithfulHead : content.head.isFaithful (!content.body.isEmpty) = true)
    (faithfulBody : content.body.all BodyElement.isFaithful = true) (noPeriod : '.' ∉ rest.head?) :
    rule.Reads ((Statement.rule content).write rest) rest fun found =>
      found.erase = content.erase := by
  have closes : Closes ('.' :: rest) := ⟨'.', rest, rfl, by decide, fun _ => noPeriod⟩
  by_cases noBody : content.body = []
  · rw [Statement.write_fact rest noBody]
    rw [noBody] at faithfulHead
    have reads := @reads_head ('.' :: rest) false content.head lexicalHead faithfulHead closes
    have noArrow : (do spacedToken ":-"; commit body : Parser (List BodyElement)).Rejects
        ('.' :: rest) := by
      refine .bind (@Solid.rejects_spacedToken _ ":-" [] closes.solid ?_ (by simp))
      rintro ⟨others, shape⟩
      cases shape
    refine reads_rule_parts (@rejects_weight_head ('.' :: rest) false _ lexicalHead) ?_
    refine .firstOf (.tail (.bind (rejects_arrow (head_ne_colon lexicalHead _))) (.head ?_))
    refine .bind reads fun found same => .bind (.optional_none noArrow) ?_
    rintro _ rfl
    exact .pure ⟨same, by rw [noBody]; rfl⟩
  · have readsBody := reads_body noBody lexicalBody faithfulBody closes
    have solid := solid_writeBody noBody lexicalBody ('.' :: rest)
    rw [List.isEmpty_eq_false_iff.mpr noBody] at faithfulHead
    cases isFalse : content.head.isFalse with
    | true =>
        rw [Statement.write_constraint rest noBody isFalse]
        refine reads_rule_parts (rejects_weight_first (by decide) (by decide) _) ?_
        refine .firstOf (.head (.bind (reads_token ":-" _) fun _ _ => ?_))
        refine .bind solid.reads_blank fun _ _ => .bind (.commit readsBody) fun found same => ?_
        exact .pure ⟨(Head.erase_of_isFalse isFalse faithfulHead).symm, same⟩
    | false =>
        rw [Statement.write_rule rest noBody isFalse]
        have closesHead : Closes (':' :: '-' :: ' ' :: writeBody content.body ('.' :: rest)) :=
          closes_cons (by decide) (by decide) _
        have reads := @reads_head _ true content.head lexicalHead faithfulHead closesHead
        refine reads_rule_parts (@rejects_weight_head
          (':' :: '-' :: ' ' :: writeBody content.body ('.' :: rest)) true _ lexicalHead) ?_
        refine .firstOf (.tail (.bind (rejects_arrow (head_ne_colon lexicalHead _))) (.head ?_))
        refine .bind reads fun found same => ?_
        refine .bind (.optional_some (.bind (@reads_arrow _ true solid) fun _ _ =>
          .commit readsBody)) ?_
        rintro _ ⟨elements, rfl, sameBody⟩
        exact .pure ⟨same, sameBody⟩

end Rules

/-! Weak constraints. -/

theorem closes_writeKey (content : WeakConstraint) (rest : List Char) :
    Closes ('.' :: content.writeKey rest) :=
  ⟨'.', _, rfl, by decide, fun _ => by simp [WeakConstraint.writeKey]⟩

/-- The weight, the priority and the terms are read behind each body. -/
theorem reads_key {content : WeakConstraint}
    (lexical : Term.areLexical (content.weight :: content.priority :: content.terms) = true)
    (body : List BodyElement) :
    (do
      spacedToken "."
      token "["
      space
      let weight ← term
      let priority ← optional do spacedToken "@"; term
      let terms ← many do spacedToken ","; term
      space
      token "]"
      return { body, weight, priority := priority.getD (.number 0), terms } :
        Parser WeakConstraint).Reads ('.' :: content.writeKey rest) rest fun found =>
      found.body = body ∧ Term.eraseAll (found.weight :: found.priority :: found.terms) =
        Term.rereadAll (content.weight :: content.priority :: content.terms) := by
  have allRead := allRead_of_areLexical _ lexical
  have readableWeight := allRead content.weight (List.mem_cons_self ..)
  have readsTerms : AllRead (content.priority :: content.terms) :=
    fun term member => allRead term (List.mem_cons_of_mem _ member)
  have solidTerms : Solid (writeAll [','] Term.write (content.priority :: content.terms)
      (']' :: rest)) :=
    solid_writeAll (by simp) (fun term member text => ((readsTerms term member).1 text).solid) _
  have ends : EndsTerm 0 (']' :: rest) := endsTerm_break (by decide) 0 rest
  have last : (do spacedToken ","; term : Parser Term).Rejects (']' :: rest) :=
    .bind (rejects_comma (solid_cons (by decide) (by decide)) (by simp))
  obtain ⟨_, _, middle, isCons, readsPriority, readsOthers⟩ :=
    (readsTerms.row (by simp) ends).split last
  cases isCons
  have period : (spacedToken ".").Reads ('.' :: content.writeKey rest)
      ('[' :: content.weight.write ('@' :: writeAll [','] Term.write
        (content.priority :: content.terms) (']' :: rest))) fun _ => True :=
    Solid.reads_delimiter (solid_cons (by decide) (by decide)) rfl (by decide) (by decide)
  have sign := @Solid.reads_spacedToken _ "@" [] [] solidTerms
    (solid_cons (by decide) (by decide)) (by decide) (by simp) (by simp)
  refine .bind period fun _ _ => .bind (reads_token "[" _) fun _ _ => ?_
  refine .bind (readableWeight.1 _).solid.reads_no_space fun _ _ => ?_
  refine .bind (readableWeight.reads_term (endsTerm_break (by decide) 0 _)) ?_
  intro weight sameWeight
  refine .bind (.optional_some (.bind sign fun _ _ => readsPriority)) ?_
  rintro _ ⟨priority, rfl, samePriority⟩
  refine .bind readsOthers fun others sameOthers => ?_
  refine .bind (Solid.reads_no_space (solid_cons (by decide) (by decide))) fun _ _ => ?_
  refine .bind (reads_token "]" rest) fun _ _ => .pure ⟨rfl, ?_⟩
  simp only [Term.eraseAll, Term.rereadAll, sameWeight, Option.getD_some, samePriority,
    Term.eraseAll_eq, map_eq_of_forall₂ sameOthers, Term.rereadAll_eq]

theorem reads_weakConstraint {content : WeakConstraint} (nonempty : content.body ≠ [])
    (lexicalBody : content.body.all BodyElement.isLexical = true)
    (faithfulBody : content.body.all BodyElement.isFaithful = true)
    (lexicalTerms : Term.areLexical (content.weight :: content.priority :: content.terms) = true)
    (faithfulTerms :
      Term.areFaithful (content.weight :: content.priority :: content.terms) = true) :
    weakConstraint.Reads ((Statement.weakConstraint content).write rest) rest fun found =>
      found.erase = content.erase := by
  rw [Statement.write_weakConstraint rest nonempty]
  have solidBody := solid_writeBody nonempty lexicalBody ('.' :: content.writeKey rest)
  have readsBody := reads_body nonempty lexicalBody faithfulBody (closes_writeKey content rest)
  refine .located (.expecting _ (.bind (reads_token ":~" _) fun _ _ =>
    .bind solidBody.reads_blank fun _ _ => .commit (.bind readsBody fun body sameBody => ?_)))
  refine (reads_key lexicalTerms body).imp ?_
  rintro found ⟨rfl, sameTerms⟩ _
  rw [(Term.rereadAll_eq_eraseAll_iff _).mpr faithfulTerms] at sameTerms
  simp only [Term.eraseAll, List.cons.injEq] at sameTerms
  simp only [Located.relocate, WeakConstraint.erase, sameBody, sameTerms]

/-! Directives. -/

section Directives

theorem reads_directive {content : Directive} (lexical : content.isLexical = true) :
    directive.Reads ((Statement.directive content).write ('\n' :: rest)) ('\n' :: rest) fun found =>
      found.erase = content.erase := by
  rw [Statement.write_directive]
  obtain ⟨text, origin⟩ := content
  unfold Directive.isLexical at lexical
  split at lexical
  · next behind shape =>
      simp only [Bool.and_eq_true, Bool.not_eq_true', List.isEmpty_eq_false_iff, beq_iff_eq]
        at lexical
      obtain ⟨⟨⟨named, unreserved⟩, isPart⟩, trimmed⟩ := lexical
      have stops : ∀ next ∈ (behind.dropWhile Char.isAlpha ++ '.' :: '\n' :: rest).head?,
          next.isAlpha = false := by
        intro next isNext
        cases content : behind.dropWhile Char.isAlpha with
        | nil =>
            rw [content] at isNext
            cases isNext
            decide
        | cons first others =>
            rw [content] at isNext
            cases isNext
            exact head_dropWhile _ (by rw [content]; rfl)
      have parts : DirectiveParts (behind.takeWhile Char.isAlpha) (behind.dropWhile Char.isAlpha)
          ('\n' :: rest) :=
        { nonempty := named
          letters := List.all_eq_true.mp List.all_takeWhile
          unreserved := unreserved
          stops := stops
          isPart := partBefore?_directive isPart rfl }
      have reads := parts.reads
      rw [← List.append_assoc, List.takeWhile_append_dropWhile, ← List.cons_append, ← shape] at reads
      refine reads.imp fun found same => same.trans ?_
      simp only [Directive.erase, Directive.ofText, trimmed, String.ofList_toList]
  · cases lexical

theorem rejects_directive (refused : '#' ∉ text.head?) : directive.Rejects text :=
  .located (.expecting _ (.bind (.after .offset fun _ _ => .after .rest fun _ _ =>
    .bind (.bind (rejects_char refused)))))

theorem rejects_directive_reserved {name : List Char} (nonempty : name ≠ [])
    (letters : ∀ next ∈ name, next.isAlpha = true)
    (reserved : isReserved (String.ofList name) = true)
    (stops : ∀ next ∈ rest.head?, next.isAlpha = false) :
    directive.Rejects ('#' :: (name ++ rest)) := by
  have noName : directiveName.Rejects (name ++ rest) := by
    refine rejects_convert ((Reads.takeWhile1 _ nonempty letters stops).imp ?_)
    rintro _ rfl
    exact ⟨_, by rw [reserved]; rfl⟩
  exact .located (.expecting _ (.bind (.after .offset fun _ _ => .after .rest fun _ _ =>
    .bind (.after (.char _ _) fun _ _ => .bind noName))))

theorem EndsName.letters (ends : EndsName rest) : ∀ next ∈ rest.head?, next.isAlpha = false := by
  intro next isNext
  have noName := ends next isNext
  simp only [isNameCharacter, Char.isAlphanum, Bool.or_eq_false_iff] at noName
  exact noName.1.1.1

variable {spaced : Bool}

/-- Atoms that start like directives are booleans and aggregates with a function. -/
theorem rejects_directive_atom {content : Atom Literal} (lexical : content.isLexical = true)
    (closes : Closes text) : directive.Rejects (content.write (gap spaced ++ text)) := by
  cases content with
  | predicate content origin =>
      simp only [Atom.isLexical, Bool.and_eq_true] at lexical
      rw [Atom.write_predicate]
      exact rejects_directive ((startsTerm_write content lexical.2 _).head_ne (by decide))
  | boolean value origin =>
      have stops := (closes.endsTerm spaced 0).name.letters
      rw [Atom.write_boolean]
      cases value with
      | true => exact rejects_directive_reserved (by decide) (by simp) (by decide) stops
      | false => exact rejects_directive_reserved (by decide) (by simp) (by decide) stops
  | comparison left symbol right origin =>
      simp only [Atom.isLexical, Bool.and_eq_true] at lexical
      rw [Atom.write_comparison]
      exact rejects_directive ((startsTerm_write left lexical.1 _).head_ne (by decide))
  | aggregate content =>
      obtain ⟨left, elements, right, origin⟩ := content
      simp only [Atom.isLexical, Aggregate.isLexical, Bool.and_eq_true] at lexical
      rw [Atom.write_aggregate]
      exact rejects_directive (head_writeLeft lexical.1.1 (by decide) (by simp [writeElements]))
  | bodyAggregate content =>
      obtain ⟨function, left, elements, right, origin⟩ := content
      simp only [Atom.isLexical, BodyAggregate.isLexical, Bool.and_eq_true] at lexical
      rw [Atom.write_bodyAggregate]
      cases left with
      | none =>
          obtain ⟨letters, plus, shape, nonempty, areLetters, isPlus, reserved⟩ :=
            function_shape function
          change directive.Rejects (function.symbol.toList ++ ' ' :: _)
          rw [shape, List.cons_append, List.append_assoc]
          refine rejects_directive_reserved nonempty areLetters reserved ?_
          intro next isNext
          rcases isPlus with rfl | rfl <;> cases isNext <;> decide
      | some guard =>
          simp only [Guard.writeLeft_some]
          exact rejects_directive ((startsTerm_write guard.term lexical.1.1 _).head_ne (by decide))

theorem rejects_directive_head {content : Head} (lexical : content.isLexical = true)
    (closes : Closes text) : directive.Rejects (content.write (gap spaced ++ text)) := by
  rcases Head.write_shape lexical (gap spaced ++ text) with
    ⟨atom, lexical, shape⟩ | ⟨others, shape⟩ | ⟨others, shape⟩
  · rw [shape]
    exact rejects_directive_atom lexical closes
  · rw [shape]
    exact rejects_directive (by simp)
  · rw [shape]
    exact rejects_directive (by simp)

end Directives

/-! Statements. -/

section Statements

theorem rejects_weakConstraint (refused : ¬ ":~".toList <+: text) :
    weakConstraint.Rejects text :=
  .located (.expecting _ (.bind (rejects_token refused)))

/-- Rules are told from the other statements by their first characters. -/
theorem rejects_others {content : Rule} (lexical : content.head.isLexical = true)
    (noPeriod : '.' ∉ rest.head?) :
    directive.Rejects ((Statement.rule content).write rest) ∧
      weakConstraint.Rejects ((Statement.rule content).write rest) := by
  have noTilde (behind : List Char) : ¬ ":~".toList <+: content.head.write behind := by
    rintro ⟨others, shape⟩
    refine head_ne_colon lexical behind ?_
    rw [← shape]
    rfl
  by_cases noBody : content.body = []
  · have closes : Closes ('.' :: rest) := ⟨'.', rest, rfl, by decide, fun _ => noPeriod⟩
    rw [Statement.write_fact rest noBody]
    exact ⟨@rejects_directive_head _ false _ lexical closes, rejects_weakConstraint (noTilde _)⟩
  · cases isFalse : content.head.isFalse with
    | true =>
        rw [Statement.write_constraint rest noBody isFalse]
        refine ⟨rejects_directive (by simp), rejects_weakConstraint ?_⟩
        rintro ⟨others, shape⟩
        cases shape
    | false =>
        have closes : Closes (':' :: '-' :: ' ' :: writeBody content.body ('.' :: rest)) :=
          closes_cons (by decide) (by decide) _
        rw [Statement.write_rule rest noBody isFalse]
        exact ⟨@rejects_directive_head _ true _ lexical closes, rejects_weakConstraint (noTilde _)⟩

theorem reads_statement {content : Statement} (lexical : content.isLexical = true)
    (faithful : content.isFaithful = true) (rest : List Char) :
    statement.Reads (content.write ('\n' :: rest)) ('\n' :: rest) fun found =>
      found.erase = content.erase := by
  have noPeriod : '.' ∉ ('\n' :: rest).head? := by simp
  cases content with
  | rule content =>
      simp only [Statement.isLexical, Bool.and_eq_true] at lexical
      simp only [Statement.isFaithful, Bool.and_eq_true] at faithful
      obtain ⟨noDirective, noConstraint⟩ := rejects_others lexical.1 noPeriod
      have reads := reads_rule lexical.1 lexical.2 faithful.1 faithful.2 noPeriod
      refine .expecting _ (.firstOf (.tail (.bind noDirective) (.tail (.bind noConstraint)
        (.head (.bind reads fun found same => .pure ?_)))))
      rw [Statement.erase, same]
      rfl
  | weakConstraint content =>
      simp only [Statement.isLexical, Bool.and_eq_true, Bool.not_eq_true',
        List.isEmpty_eq_false_iff] at lexical
      simp only [Statement.isFaithful, Bool.and_eq_true] at faithful
      have reads := @reads_weakConstraint ('\n' :: rest) content lexical.1.1 lexical.1.2 faithful.1
        lexical.2 faithful.2
      have noDirective : directive.Rejects
          ((Statement.weakConstraint content).write ('\n' :: rest)) := by
        rw [Statement.write_weakConstraint _ lexical.1.1]
        exact rejects_directive (by simp)
      refine .expecting _ (.firstOf (.tail (.bind noDirective)
        (.head (.bind reads fun found same => .pure ?_))))
      rw [Statement.erase, same]
      rfl
  | directive content =>
      refine .expecting _ (.firstOf (.head (.bind (reads_directive lexical) fun found same =>
        .pure ?_)))
      rw [Statement.erase, same]
      rfl

theorem solid_head {content : Head} (lexical : content.isLexical = true) (rest : List Char) :
    Solid (content.write rest) := by
  rcases Head.write_shape lexical rest with
    ⟨atom, lexical, shape⟩ | ⟨others, shape⟩ | ⟨others, shape⟩
  · rw [shape]
    exact (startsLiteral_atom lexical rest).solid
  · rw [shape]
    exact solid_cons (by decide) (by decide)
  · rw [shape]
    exact solid_cons (by decide) (by decide)

theorem solid_statement {content : Statement} (lexical : content.isLexical = true)
    (rest : List Char) : Solid (content.write rest) := by
  cases content with
  | rule content =>
      simp only [Statement.isLexical, Bool.and_eq_true] at lexical
      by_cases noBody : content.body = []
      · rw [Statement.write_fact rest noBody]
        exact solid_head lexical.1 _
      · cases isFalse : content.head.isFalse with
        | true =>
            rw [Statement.write_constraint rest noBody isFalse]
            exact solid_cons (by decide) (by decide)
        | false =>
            rw [Statement.write_rule rest noBody isFalse]
            exact solid_head lexical.1 _
  | weakConstraint content =>
      simp only [Statement.isLexical, Bool.and_eq_true, Bool.not_eq_true',
        List.isEmpty_eq_false_iff] at lexical
      rw [Statement.write_weakConstraint rest lexical.1.1]
      exact solid_cons (by decide) (by decide)
  | directive content =>
      rw [Statement.write_directive]
      simp only [Statement.isLexical] at lexical
      unfold Directive.isLexical at lexical
      split at lexical
      · next behind shape =>
          rw [shape]
          exact solid_cons (by decide) (by decide)
      · cases lexical

end Statements

/-! Programs. -/

section Programs

theorem solid_program {content : Program} (lexical : content.isLexical = true) :
    Solid content.write := by
  cases content with
  | nil =>
      intro first isFirst
      cases isFirst
  | cons first others =>
      simp only [Program.isLexical, List.all_cons, Bool.and_eq_true] at lexical
      exact solid_statement lexical.1 _

theorem reads_programStatement {first : Statement} {others : Program}
    (lexical : first.isLexical = true) (othersLexical : Program.isLexical others = true)
    (faithful : first.isFaithful = true) :
    programStatement.Reads (first.write ('\n' :: Program.write others)) (Program.write others)
      fun found => found.erase = first.erase :=
  .bind (.commit (reads_statement lexical faithful _)) fun _ same =>
    .bind ((solid_program othersLexical).reads_space ['\n'] (by simp [isSpace])) fun _ _ =>
      .pure same

theorem reads_statements {content : Program} (lexical : content.isLexical = true)
    (faithful : content.isFaithful = true) :
    (untilEnd programStatement).Reads content.write [] fun found =>
      Program.erase found = content.erase := by
  induction content with
  | nil => exact Reads.untilEnd_nil.imp fun _ empty => empty ▸ rfl
  | cons first others inductionHypothesis =>
      simp only [Program.isLexical, List.all_cons, Bool.and_eq_true] at lexical
      simp only [Program.isFaithful, List.all_cons, Bool.and_eq_true] at faithful
      have reads := reads_programStatement lexical.1 lexical.2 faithful.1
      have shorter : (Program.write others).length <
          (first.write ('\n' :: Program.write others)).length := by
        rw [Statement.write, List.length_append, List.length_cons]
        omega
      refine (Reads.untilEnd_cons reads shorter (inductionHypothesis lexical.2 faithful.2)).imp ?_
      rintro _ ⟨found, foundOthers, rfl, same, sameOthers⟩
      simp only [Program.erase, List.map_cons, same] at sameOthers ⊢
      rw [sameOthers]

end Programs

end Grammar

/-- A faithful program is read back from its text. -/
theorem Program.parse_render {program : Program} (lexical : program.isLexical = true)
    (faithful : program.isFaithful = true) :
    ∃ found, Program.parse program.render.toList = .ok found ∧ found.erase = program.erase := by
  rw [Program.toList_render]
  exact Reads.run (.bind (solid_program lexical).reads_no_space fun _ _ =>
    reads_statements lexical faithful)

end SoftRules
