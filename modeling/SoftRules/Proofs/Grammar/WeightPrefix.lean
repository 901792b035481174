import SoftRules.Encoding.Weight
import SoftRules.Proofs.Grammar.Concatenation
import SoftRules.Proofs.Number.Spelling

/-!
Weights in front of rules.

A numeral and a colon in front of a rule stand for an annotation `&weight` at the end of its body
(`Statement.parse_weighted`). The annotation has the integer of the numeral as its argument if it is
one of 64 bits and its text otherwise, and the encoding can read both.
-/

set_option autoImplicit false

namespace SoftRules

namespace Grammar

open SoftRules.Parser SoftRules.Number

/-! Reading a weight. -/

section Weight

variable {text rest : List Char}

theorem reads_optional {α : Type} {parser : Parser α}
    (reads : parser.Reads text rest fun _ => True) :
    (optional parser).Reads text rest fun _ => True :=
  (Reads.optional_some reads).imp fun _ _ => trivial

theorem reads_no_optional {α : Type} {parser : Parser α} (rejects : parser.Rejects text) :
    (optional parser).Reads text text fun _ => True :=
  (Reads.optional_none rejects).imp fun _ _ => trivial

theorem reads_digit_run (isDigits : IsDigits text)
    (stops : ∀ first ∈ rest.head?, first.isDigit = false) :
    digits.Reads (text ++ rest) rest fun _ => True :=
  (Reads.takeWhile1 _ isDigits.nonempty isDigits.areDigits stops).imp fun _ _ => trivial

/-- What does not continue a numeral. -/
structure EndsNumeral (rest : List Char) : Prop where
  digit : ∀ first ∈ rest.head?, first.isDigit = false
  point : '.' ∉ rest.head?
  mark : ∀ first ∈ rest.head?, ['e', 'E'].contains first = false

theorem reads_fraction (isFraction : IsFraction text)
    (stops : ∀ first ∈ rest.head?, first.isDigit = false) (noPoint : '.' ∉ rest.head?) :
    (optional do char '.'; digits).Reads (text ++ rest) rest fun _ => True := by
  cases isFraction with
  | none => exact reads_no_optional (.bind (rejects_char noPoint))
  | some isDigits =>
      exact reads_optional (.bind (.char '.' _) fun _ _ => reads_digit_run isDigits stops)

theorem reads_exponentSign {sign : List Char} (isSign : sign = [] ∨ sign = ['+'] ∨ sign = ['-'])
    (isDigits : IsDigits text) :
    (optional (oneOf ['+', '-'])).Reads (sign ++ (text ++ rest)) (text ++ rest) fun _ => True := by
  rcases isSign with rfl | rfl | rfl
  · obtain ⟨first, others, rfl, isDigit⟩ := isDigits.exists_cons
    refine reads_no_optional (rejects_satisfy _ ?_)
    rintro _ ⟨⟩
    have noPlus : first ≠ '+' := by rintro rfl; cases isDigit
    have noMinus : first ≠ '-' := by rintro rfl; cases isDigit
    simp [noPlus, noMinus]
  · exact reads_optional ((Reads.satisfy _ rfl).imp fun _ _ => trivial)
  · exact reads_optional ((Reads.satisfy _ rfl).imp fun _ _ => trivial)

theorem reads_exponent (isExponent : IsExponent text) (ends : EndsNumeral rest) :
    (optional do
      let _ ← oneOf ['e', 'E']
      let _ ← optional (oneOf ['+', '-'])
      digits).Reads (text ++ rest) rest fun _ => True := by
  cases isExponent with
  | none => exact reads_no_optional (.bind (rejects_satisfy _ ends.mark))
  | @some mark sign digits isMark isSign isDigits =>
      have accepted : ['e', 'E'].contains mark = true := by simpa using isMark
      rw [List.cons_append, List.append_assoc]
      refine reads_optional (.bind (.satisfy _ accepted) fun _ _ => ?_)
      refine .bind (reads_exponentSign isSign isDigits) fun _ _ => ?_
      exact reads_digit_run isDigits ends.digit

/-- A numeral is read up to its end. -/
theorem reads_weightNumber (isNumeral : IsNumeral text) (ends : EndsNumeral rest) :
    weightNumber.Reads (text ++ rest) rest (· = text) := by
  cases isNumeral with
  | @intro sign whole fraction exponent isSign isWhole isFraction isExponent =>
      have minus : (optional (char '-')).Reads (sign ++ (whole ++ (fraction ++ (exponent ++ rest))))
          (whole ++ (fraction ++ (exponent ++ rest))) fun _ => True := by
        rcases isSign with rfl | rfl
        · obtain ⟨first, others, rfl, -⟩ := isWhole.exists_cons
          exact reads_no_optional (rejects_char isWhole.unsigned.1)
        · exact reads_optional ((Reads.char '-' _).imp fun _ _ => trivial)
      have noPoint : '.' ∉ (exponent ++ rest).head? := by
        cases isExponent with
        | none => exact ends.point
        | some isMark => rcases isMark with rfl | rfl <;> simp
      have behind := isExponent.no_digit ends.digit
      have parts : numberText.Reads (sign ++ (whole ++ (fraction ++ exponent)) ++ rest) rest
          fun _ => True := by
        simp only [List.append_assoc]
        refine .bind minus fun _ _ => ?_
        refine .bind (reads_digit_run isWhole (isFraction.no_digit behind)) fun _ _ => ?_
        refine .bind (reads_fraction isFraction behind noPoint) fun _ _ => ?_
        exact .bind (reads_exponent isExponent ends) fun _ _ => .pure trivial
      exact .consumed parts

/-- The annotation that a numeral in front of a rule stands for. -/
def weightRemark (text : List Char) : TheoryAtom where
  name := "weight"
  arguments := [weightTerm text]

/-- The rule with that annotation at the end of its body. -/
def weighted (numeral : List Char) (content : Rule) : Rule :=
  { content with body := content.body ++ [.theory (weightRemark numeral)] }

theorem reads_weight (isNumeral : IsNumeral text) (rest : List Char) :
    weight.Reads (text ++ ' ' :: ':' :: ' ' :: rest) (' ' :: rest) fun found =>
      found.erase = (weightRemark text).erase := by
  have ends : EndsNumeral (' ' :: ':' :: ' ' :: rest) := by
    refine ⟨?_, by simp, ?_⟩
    · rintro _ ⟨⟩
      rfl
    · rintro _ ⟨⟩
      rfl
  have annotation : (located do
      return { name := "weight", arguments := [weightTerm (← weightNumber)] : TheoryAtom }).Reads
      (text ++ ' ' :: ':' :: ' ' :: rest) (' ' :: ':' :: ' ' :: rest) fun found =>
        found.erase = (weightRemark text).erase := by
    refine .located (.bind (reads_weightNumber isNumeral ends) ?_)
    rintro _ rfl
    exact .pure fun _ => rfl
  have solid : Solid (':' :: ' ' :: rest) := solid_cons (by decide) (by decide)
  have noArrow : (oneOf ['-', '~']).Rejects (' ' :: rest) := by
    refine rejects_satisfy _ ?_
    rintro _ ⟨⟩
    rfl
  refine .expecting _ (.bind annotation fun found isFound => .bind solid.reads_blank fun _ _ => ?_)
  exact .bind (.char ':' _) fun _ _ => .bind (.refuse noArrow) fun _ _ => .pure isFound

end Weight

/-! Rules without a weight in front of them. -/

section Rule

variable {cursor : Cursor} {text : List Char}

/-- No weight stands in front of a statement. -/
def IsUnweighted (text : List Char) : Prop :=
  ∀ found next, (do space; weight).read (.start text) ≠ .accept found next

instance : DecidablePred IsUnweighted := fun text =>
  match outcome : (do space; weight).read (.start text) with
  | .accept found next => isFalse fun unweighted => unweighted found next outcome
  | .reject _ => isTrue fun found next accepted => by cases outcome.symm.trans accepted
  | .abort _ => isTrue fun found next accepted => by cases outcome.symm.trans accepted

theorem answers_statement_rule (cursor : Cursor) :
    statement.Answers cursor fun found next => ∀ content, found = .rule content →
      rule.read cursor = .accept content next := by
  refine .expecting _ (.firstOf ⟨.bind (answers_read directive cursor) ?_, fun _ =>
    ⟨.bind (answers_read weakConstraint cursor) ?_, fun _ =>
      ⟨.bind (answers_read rule cursor) ?_, fun _ => trivial⟩⟩⟩)
  · exact fun found next _ => .pure (by simp)
  · exact fun found next _ => .pure (by simp)
  · intro found next isRead
    refine .pure ?_
    rintro content ⟨⟩
    exact isRead

/-- A rule without a weight can be read with a weight in front of it. -/
theorem answers_rule_unweighted {numeral : List Char} (isNumeral : IsNumeral numeral)
    (noWeight : ∀ found next, weight.read cursor ≠ .accept found next)
    (spaced : space.Reads text cursor.rest fun _ => True) :
    rule.Answers cursor fun found next =>
      rule.Reads (numeral ++ ' ' :: ':' :: ' ' :: text) next.rest fun again =>
        again.erase = (weighted numeral found).erase := by
  have unweighted : (optional do let weight ← weight; space; return weight).Answers cursor
      fun found next => found = none ∧ next = cursor := by
    refine .optional (.bind (answers_read weight cursor) ?_) fun _ => ⟨rfl, rfl⟩
    intro found next isRead
    exact absurd isRead (noWeight found next)
  refine .located (.expecting _ (.bind unweighted ?_))
  rintro _ middle ⟨rfl, rfl⟩
  refine .bind (answers_read headAndBody middle) fun parts behind isParts => ?_
  refine .bind (answers_read space behind) fun _ front isSpaced => ?_
  refine .bind (.expecting _ (answers_word front ['.'])) fun _ next isPeriod => ?_
  refine .pure fun origin => .located (.expecting _ ?_)
  -- The same parts are read behind the weight.
  have withWeight : (optional do let weight ← weight; space; return weight).Reads
      (numeral ++ ' ' :: ':' :: ' ' :: text) middle.rest fun found => ∃ value, found = some value ∧
        value.erase = (weightRemark numeral).erase :=
    .optional_some (.bind (reads_weight isNumeral text) fun found isFound =>
      .bind ((reads_space_blank rfl).mpr spaced) fun _ _ => .pure isFound)
  have loosely : Loosely .same viewParts headAndBody headAndBody := loosely_headAndBody
  have sameParts : Parallel viewParts Eq headAndBody headAndBody := loosely.parallel id
  refine .bind withWeight ?_
  rintro _ ⟨weight, rfl, sameWeight⟩
  refine .bind (sameParts.reads isParts) fun parts' same => ?_
  refine .bind (reads_of_space isSpaced) fun _ _ => ?_
  rw [isPeriod]
  refine .bind (reads_token "." next.rest) fun _ _ => .pure fun again => ?_
  have sameRule := @erase_of_parts (some weight) (some (weightRemark numeral)) parts' parts
    (congrArg some sameWeight) same
  simpa [weighted, Rule.erase, Located.relocate] using sameRule

/-- Only a rule can start with a numeral. -/
theorem rejects_others_numeral {numeral : List Char} (isNumeral : IsNumeral numeral)
    (rest : List Char) :
    Solid (numeral ++ rest) ∧ directive.Rejects (numeral ++ rest) ∧
      weakConstraint.Rejects (numeral ++ rest) := by
  obtain ⟨first, others, rfl, isOther⟩ : ∃ first others, numeral = first :: others ∧
      first ∉ [' ', '\t', '\r', '\n', '%', '#', ':'] := by
    cases isNumeral with
    | intro isSign isWhole isFraction isExponent =>
        obtain ⟨digit, others, rfl, isDigit⟩ := isWhole.exists_cons
        rcases isSign with rfl | rfl
        · refine ⟨digit, _, rfl, ?_⟩
          simp only [List.mem_cons, List.not_mem_nil, or_false]
          rintro (rfl | rfl | rfl | rfl | rfl | rfl | rfl) <;> cases isDigit
        · exact ⟨'-', _, rfl, by decide⟩
  simp only [List.mem_cons, List.not_mem_nil, or_false, not_or] at isOther
  obtain ⟨noBlank, noTab, noReturn, noFeed, noPercent, noSharp, noColon⟩ := isOther
  refine ⟨solid_cons ?_ noPercent, rejects_directive ?_, rejects_weakConstraint fun starts => ?_⟩
  · simp [isSpace, noBlank, noTab, noReturn, noFeed]
  · simpa using noSharp
  · exact noColon (List.cons_prefix_cons.mp starts).1.symm

/-- A statement that is a rule without a weight. -/
theorem answers_weighted {numeral : List Char} (isNumeral : IsNumeral numeral)
    (unweighted : IsUnweighted text) :
    singleStatement.Answers (.start text) fun found last => last.rest = [] →
      ∀ content, found = .rule content →
        singleStatement.Reads (numeral ++ ' ' :: ':' :: ' ' :: text) [] fun again =>
          ∃ rule, again = .rule rule ∧ rule.erase = (weighted numeral content).erase := by
  refine .bind (answers_read space _) fun _ start isSpaced => ?_
  refine .bind (answers_statement_rule start) fun found behind isRule => ?_
  refine .bind (answers_read space behind) fun _ last isSpaced' => .pure ?_
  intro isEnd content isContent
  have noWeight : ∀ found next, weight.read start ≠ .accept found next := by
    intro found next isRead
    refine unweighted found next ?_
    rw [read_bind, isSpaced]
    exact isRead
  have rules := answers_rule_unweighted isNumeral noWeight (reads_of_space isSpaced) _ _
    (isRule content isContent)
  obtain ⟨solid, noDirective, noConstraint⟩ :=
    rejects_others_numeral isNumeral (' ' :: ':' :: ' ' :: text)
  have statements : statement.Reads (numeral ++ ' ' :: ':' :: ' ' :: text) behind.rest fun again =>
      ∃ rule, again = .rule rule ∧ rule.erase = (weighted numeral content).erase :=
    .expecting _ (.firstOf (.tail (.bind noDirective) (.tail (.bind noConstraint)
      (.head (.bind rules fun again same => .pure ⟨again, rfl, same⟩)))))
  refine .bind solid.reads_no_space fun _ _ => .bind statements fun again isAgain => ?_
  exact .bind (isEnd ▸ reads_of_space isSpaced') fun _ _ => .pure isAgain

end Rule

end Grammar

/-! The term of a weight. -/

/-- The term of a numeral: its integer if that is one of 64 bits, and its text otherwise. -/
inductive IsWeightTerm (numeral : List Char) : Term → Prop
  | integer {value : Int} (denotes : Number.Denotes numeral value)
      (fits : Number.fitsInt64 value = true) : IsWeightTerm numeral (.number value)
  | text (exceeds : ∀ value, Number.Denotes numeral value → Number.fitsInt64 value = false) :
      IsWeightTerm numeral (.text (String.ofList numeral))

theorem isWeightTerm_weightTerm {numeral : List Char} (isNumeral : Number.IsNumeral numeral) :
    IsWeightTerm numeral (Grammar.weightTerm numeral) := by
  have denotes {value : Int} := @Number.integer?_eq_some_iff numeral value isNumeral.no_plus
  unfold Grammar.weightTerm
  cases read : Number.integer? numeral with
  | none =>
      refine .text fun value denoted => ?_
      rw [denotes.mpr denoted] at read
      cases read
  | some value =>
      cases fits : Number.fitsInt64 value with
      | true =>
          simp only [fits, if_true]
          exact .integer (denotes.mp read) fits
      | false =>
          simp only [fits, Bool.false_eq_true, if_false]
          refine .text fun other denoted => ?_
          rw [denotes.mpr denoted] at read
          cases read
          exact fits

/-- The encoding reads the term of a numeral as a number. -/
theorem IsWeightTerm.argumentValue {numeral : List Char} {term : Term}
    (isTerm : IsWeightTerm numeral term) (isNumeral : Number.IsNumeral numeral) :
    ∃ value, Weight.argumentValue term = .ok value := by
  cases isTerm with
  | integer denotes fits => exact ⟨_, rfl⟩
  | text exceeds =>
      obtain ⟨value, read⟩ := isNumeral.exists_read?
      exact ⟨value, by simp [Weight.argumentValue, Term.text, Term.symbol?, read]⟩

theorem Weight.ofFormula_ne_notANumber {formula : WeightFormula} {argument : Term} {value : Float}
    (isValue : Weight.argumentValue argument = .ok value) (power : Int) (expression : String) :
    Weight.ofFormula formula argument power ≠ .error (.notANumber expression) := by
  unfold Weight.ofFormula
  rw [isValue]
  simp only [bind, Except.bind]
  split
  · exact fun same => by cases same
  · exact fun same => by cases same

/-- A numeral in front of a rule is the annotation of a weight that the encoding can read. The text
of a rule without a weight is read as that rule; with a numeral and a colon in front of it, it is
read as the rule with the annotation at the end of its body. -/
theorem Statement.parse_weighted {numeral text : List Char} {content : Rule}
    (isNumeral : Number.IsNumeral numeral) (unweighted : Grammar.IsUnweighted text)
    (parsed : Statement.parse text = .ok (.rule content)) :
    ∃ again argument, Statement.parse (numeral ++ " : ".toList ++ text) = .ok (.rule again) ∧
      again.same { content with
        body := content.body ++ [.theory { name := "weight", arguments := [argument] }] } = true ∧
      IsWeightTerm numeral argument ∧
      ∀ power expression,
        Weight.ofFormula .weight argument power ≠ .error (.notANumber expression) := by
  obtain ⟨last, isEnd, reads⟩ := (Grammar.answers_weighted isNumeral unweighted).run parsed
  obtain ⟨_, again, ⟨rule, rfl, same⟩⟩ := (reads isEnd content rfl).run
  have isTerm := isWeightTerm_weightTerm isNumeral
  obtain ⟨value, isValue⟩ := isTerm.argumentValue isNumeral
  refine ⟨rule, Grammar.weightTerm numeral, ?_, (Rule.same_iff _ _).mpr same, isTerm, ?_⟩
  · simpa [Statement.parse] using again
  · exact Weight.ofFormula_ne_notANumber isValue

/-- The rule as which a text is read. -/
def Statement.readRule? (text : List Char) : Option Rule :=
  match Statement.parse text with
  | .ok (.rule content) => some content
  | .ok _ => none
  | .error _ => none

theorem Statement.parse_of_readRule? {text : List Char}
    (isRule : (Statement.readRule? text).isSome = true) :
    ∃ content, Statement.parse text = .ok (.rule content) := by
  unfold Statement.readRule? at isRule
  split at isRule
  · next content parsed => exact ⟨content, parsed⟩
  · cases isRule
  · cases isRule

/-- A text that starts with a number but not with a weight. -/
def Statement.comparing : List Char := " 1 < X %* : *% :- q(X), not \"é\" = X.".toList

theorem Statement.parse_weighted_comparing :
    ∃ content again argument, Statement.parse Statement.comparing = .ok (.rule content) ∧
      Statement.parse ("-12.5e+3".toList ++ " : ".toList ++ Statement.comparing) =
        .ok (.rule again) ∧
      again.same { content with
        body := content.body ++ [.theory { name := "weight", arguments := [argument] }] } = true ∧
      IsWeightTerm "-12.5e+3".toList argument ∧
      ∀ power expression,
        Weight.ofFormula .weight argument power ≠ .error (.notANumber expression) := by
  have isNumeral : Number.IsNumeral "-12.5e+3".toList := by
    have shape : "-12.5e+3".toList =
        ['-'] ++ (['1', '2'] ++ (('.' :: ['5']) ++ ('e' :: (['+'] ++ ['3'])))) := by decide
    have digits {text : List Char} (nonempty : text ≠ [])
        (areDigits : text.all Char.isDigit = true) : Number.IsDigits text :=
      ⟨nonempty, List.all_eq_true.mp areDigits⟩
    rw [shape]
    exact .intro (.inr rfl) (digits (by decide) (by decide))
      (.some (digits (by decide) (by decide)))
      (.some (.inl rfl) (.inr (.inl rfl)) (digits (by decide) (by decide)))
  have unweighted : Grammar.IsUnweighted Statement.comparing := by decide +kernel
  obtain ⟨content, parsed⟩ := Statement.parse_of_readRule?
    (by decide +kernel : (Statement.readRule? Statement.comparing).isSome = true)
  obtain ⟨again, argument, weighted⟩ := Statement.parse_weighted isNumeral unweighted parsed
  exact ⟨content, again, argument, parsed, weighted⟩

end SoftRules
