import SoftRules.Proofs.Grammar.LiteralText

/-!
How relations and the bounds of aggregates are read, and what ends a literal.
-/

set_option autoImplicit false

namespace SoftRules.Grammar

open SoftRules.Parser

/-! Relations. -/

section Relation

variable {text rest : List Char}

def isRelationStart (character : Char) : Bool :=
  character == '=' || character == '!' || character == '<' || character == '>'

theorem reads_relation (symbol : Relation) (noEqual : '=' ∉ rest.head?) :
    relation.Reads (symbol.symbol.toList ++ rest) rest (· = symbol) := by
  have reads (spelling : String) (symbol : Relation) : (do
      word spelling.toList
      return symbol : Parser Relation).Reads (spelling.toList ++ rest) rest (· = symbol) :=
    .bind (.word _ _) fun _ _ => .pure rfl
  have rejects (spelling : String) (other : Relation)
      (different : ¬ spelling.toList <+: symbol.symbol.toList ++ rest) : (do
        word spelling.toList
        return other : Parser Relation).Rejects (symbol.symbol.toList ++ rest) :=
    .bind (rejects_word different)
  have noLonger (first : Char) : ¬ [first, '='] <+: first :: rest := by
    rintro ⟨others, shape⟩
    have second : rest = '=' :: others := by simpa using shape.symm
    exact noEqual (by simp [second])
  refine .expecting _ (.firstOf ?_)
  cases symbol with
  | equal =>
      exact .tail (rejects "==" .equal (noLonger '='))
        (.tail (rejects "!=" .unequal (by simp [Relation.symbol]))
          (.tail (rejects "<=" .lessEqual (by simp [Relation.symbol]))
            (.tail (rejects ">=" .greaterEqual (by simp [Relation.symbol]))
              (.head (reads "=" .equal)))))
  | unequal =>
      exact .tail (rejects "==" .equal (by simp [Relation.symbol])) (.head (reads "!=" .unequal))
  | less =>
      exact .tail (rejects "==" .equal (by simp [Relation.symbol]))
        (.tail (rejects "!=" .unequal (by simp [Relation.symbol]))
          (.tail (rejects "<=" .lessEqual (noLonger '<'))
            (.tail (rejects ">=" .greaterEqual (by simp [Relation.symbol]))
              (.tail (rejects "=" .equal (by simp [Relation.symbol])) (.head (reads "<" .less))))))
  | lessEqual =>
      exact .tail (rejects "==" .equal (by simp [Relation.symbol]))
        (.tail (rejects "!=" .unequal (by simp [Relation.symbol]))
          (.head (reads "<=" .lessEqual)))
  | greater =>
      exact .tail (rejects "==" .equal (by simp [Relation.symbol]))
        (.tail (rejects "!=" .unequal (by simp [Relation.symbol]))
          (.tail (rejects "<=" .lessEqual (by simp [Relation.symbol]))
            (.tail (rejects ">=" .greaterEqual (noLonger '>'))
              (.tail (rejects "=" .equal (by simp [Relation.symbol]))
                (.tail (rejects "<" .less (by simp [Relation.symbol]))
                  (.head (reads ">" .greater)))))))
  | greaterEqual =>
      exact .tail (rejects "==" .equal (by simp [Relation.symbol]))
        (.tail (rejects "!=" .unequal (by simp [Relation.symbol]))
          (.tail (rejects "<=" .lessEqual (by simp [Relation.symbol]))
            (.head (reads ">=" .greaterEqual))))

theorem rejects_relation (refused : ∀ first ∈ text.head?, isRelationStart first = false) :
    relation.Rejects text := by
  have rejects (spelling : String) (symbol : Relation) (first : Char) (others : List Char)
      (shape : spelling.toList = first :: others) (isStart : isRelationStart first = true) : (do
        word spelling.toList
        return symbol : Parser Relation).Rejects text := by
    refine .bind (rejects_word ?_)
    rintro ⟨behind, rfl⟩
    rw [shape] at refused
    rw [refused first rfl] at isStart
    cases isStart
  refine .expecting _ (rejects_firstOf ?_)
  exact .cons (rejects "==" .equal '=' ['='] (by decide) (by decide))
    (.cons (rejects "!=" .unequal '!' ['='] (by decide) (by decide))
      (.cons (rejects "<=" .lessEqual '<' ['='] (by decide) (by decide))
        (.cons (rejects ">=" .greaterEqual '>' ['='] (by decide) (by decide))
          (.cons (rejects "=" .equal '=' [] (by decide) (by decide))
            (.cons (rejects "<" .less '<' [] (by decide) (by decide))
              (.cons (rejects ">" .greater '>' [] (by decide) (by decide)) .nil))))))

theorem isBreak_relation (symbol : Relation) :
    ∃ first others, symbol.symbol.toList = first :: others ∧ isBreak first = true := by
  cases symbol
  case equal => exact ⟨'=', [], rfl, rfl⟩
  case unequal => exact ⟨'!', ['='], rfl, rfl⟩
  case less => exact ⟨'<', [], rfl, rfl⟩
  case lessEqual => exact ⟨'<', ['='], rfl, rfl⟩
  case greater => exact ⟨'>', [], rfl, rfl⟩
  case greaterEqual => exact ⟨'>', ['='], rfl, rfl⟩

theorem solid_relation (symbol : Relation) (rest : List Char) :
    Solid (symbol.symbol.toList ++ rest) := by
  cases symbol <;> exact solid_cons (by decide) (by decide)

end Relation

/-! A blank between a component and the text behind it. -/

section Gap

variable {text : List Char} (spaced : Bool)

theorem gap_areBlank : ∀ blank ∈ gap spaced, isSpace blank = true := by
  cases spaced <;> simp [gap, isSpace]

theorem Solid.reads_gap (solid : Solid text) :
    space.Reads (gap spaced ++ text) text fun _ => True :=
  solid.reads_space (gap spaced) (gap_areBlank spaced)

theorem endsTerm_gap {first : Char} (isStop : isBreak first = true) (strength : Nat)
    (others : List Char) : EndsTerm strength (gap spaced ++ first :: others) := by
  cases spaced with
  | false => exact endsTerm_break isStop strength others
  | true =>
      simp only [isBreak, Bool.and_eq_true, Bool.not_eq_true', bne_iff_ne] at isStop
      obtain ⟨⟨⟨_, noSpace⟩, noComment⟩, noOperator⟩ := isStop.1
      refine endsTerm_blank (solid_cons noSpace noComment) ?_ ?_ strength
      · intro next isNext
        cases isNext
        exact noOperator
      · rintro ⟨rest, shape⟩
        cases shape
        exact isStop.2 rfl

end Gap

theorem endsTerm_relation (symbol : Relation) (text : List Char) :
    EndsTerm 0 (symbol.symbol.toList ++ text) := by
  obtain ⟨first, others, shape, isStop⟩ := isBreak_relation symbol
  rw [shape]
  exact endsTerm_break isStop 0 _

theorem endsTerm_spaced_relation (symbol : Relation) (text : List Char) :
    EndsTerm 0 (' ' :: (symbol.symbol.toList ++ text)) := by
  obtain ⟨first, others, shape, isStop⟩ := isBreak_relation symbol
  rw [shape]
  exact endsTerm_gap true isStop 0 _

/-! What stands behind a literal. -/

section Closing

variable {text : List Char}

def isDelimiter (character : Char) : Bool :=
  character == ',' || character == ';' || character == ':' || character == '.' ||
    character == '\x7d'

/-- A delimiter starts the text. If it is a period, then it does not start an interval. -/
def Closes (text : List Char) : Prop :=
  ∃ first others, text = first :: others ∧ isDelimiter first = true ∧
    (first = '.' → '.' ∉ others.head?)

theorem isDelimiter_classes {character : Char} (isEnd : isDelimiter character = true) :
    isSpace character = false ∧ character ≠ '%' ∧ isRelationStart character = false ∧
      isTermStart character = false ∧ isOperatorStart character = false := by
  simp only [isDelimiter, Bool.or_eq_true, beq_iff_eq] at isEnd
  rcases isEnd with (((rfl | rfl) | rfl) | rfl) | rfl <;> decide

theorem closes_cons {first : Char} (isEnd : isDelimiter first = true) (noPeriod : first ≠ '.')
    (others : List Char) : Closes (first :: others) :=
  ⟨first, others, rfl, isEnd, fun isPeriod => absurd isPeriod noPeriod⟩

theorem Closes.head (closes : Closes text) :
    ∀ first ∈ text.head?, isDelimiter first = true := by
  obtain ⟨first, others, rfl, isEnd, _⟩ := closes
  intro character isFirst
  cases isFirst
  exact isEnd

theorem Closes.head_ne (closes : Closes text) {character : Char}
    (other : isDelimiter character = false) : character ∉ text.head? := by
  intro isFirst
  rw [closes.head character isFirst] at other
  cases other

theorem Closes.solid (closes : Closes text) : Solid text := by
  intro first isFirst
  have classes := isDelimiter_classes (closes.head first isFirst)
  exact ⟨classes.1, classes.2.1⟩

theorem Closes.rejects_relation (closes : Closes text) : relation.Rejects text :=
  Grammar.rejects_relation fun first isFirst =>
    (isDelimiter_classes (closes.head first isFirst)).2.2.1

theorem Closes.rejects_term (closes : Closes text) : term.Rejects text :=
  Grammar.rejects_term fun first isFirst =>
    (isDelimiter_classes (closes.head first isFirst)).2.2.2.1

theorem Closes.endsTerm (closes : Closes text) (spaced : Bool) (strength : Nat) :
    EndsTerm strength (gap spaced ++ text) := by
  have solid := closes.solid
  obtain ⟨first, others, rfl, isEnd, noInterval⟩ := closes
  by_cases isPeriod : first = '.'
  · subst isPeriod
    cases spaced with
    | false => exact endsTerm_period (noInterval rfl) strength
    | true =>
        refine endsTerm_blank solid ?_ ?_ strength
        · intro next isNext
          cases isNext
          decide
        · rintro ⟨rest, shape⟩
          cases shape
          exact noInterval rfl rfl
  · refine endsTerm_gap spaced ?_ strength others
    simp only [isDelimiter, Bool.or_eq_true, beq_iff_eq, isPeriod, or_false] at isEnd
    rcases isEnd with ((rfl | rfl) | rfl) | rfl <;> decide

end Closing

/-! Bounds. -/

section Guards

variable {input text : List Char} {good : Term → Prop}

theorem reads_leadingGuard_some {isGuard : Guard → Prop} (spaced : Bool)
    (reads : leftGuard.Reads input (gap spaced ++ text) isGuard) (solid : Solid text) :
    leadingGuard.Reads input text fun found => ∃ guard, found = some guard ∧ isGuard guard :=
  .optional_some (.bind reads fun _ found => .bind (solid.reads_gap spaced) fun _ _ => .pure found)

/-- A term with a relation behind it is read as a bound. -/
theorem reads_leadingGuard_relation (symbol : Relation) (before after : Bool)
    (reads : term.Reads input (gap before ++ (symbol.symbol.toList ++ (gap after ++ text))) good)
    (solid : Solid text) (noEqual : '=' ∉ (gap after ++ text).head?) :
    leadingGuard.Reads input text fun found =>
      ∃ bound, found = some ⟨symbol, bound⟩ ∧ good bound := by
  have readsRelation : (do space; relation : Parser Relation).Reads
      (gap before ++ (symbol.symbol.toList ++ (gap after ++ text))) (gap after ++ text)
      (· = symbol) :=
    .bind ((solid_relation symbol _).reads_gap before) fun _ _ => reads_relation symbol noEqual
  have readsGuard : leftGuard.Reads input (gap after ++ text) fun guard =>
      ∃ bound, guard = ⟨symbol, bound⟩ ∧ good bound := by
    refine .bind reads fun bound isGood => .bind (.optional_some readsRelation) ?_
    rintro _ ⟨_, rfl, rfl⟩
    exact .pure ⟨bound, rfl, isGood⟩
  refine (reads_leadingGuard_some after readsGuard solid).imp ?_
  rintro _ ⟨_, rfl, bound, rfl, isGood⟩
  exact ⟨bound, rfl, isGood⟩

/-- A term without a relation behind it is read as a bound, too. -/
theorem reads_leadingGuard_bare (spaced : Bool) (reads : term.Reads input (gap spaced ++ text) good)
    (solid : Solid text) (noRelation : ∀ first ∈ text.head?, isRelationStart first = false) :
    leadingGuard.Reads input text fun found =>
      ∃ bound, found = some ⟨.lessEqual, bound⟩ ∧ good bound := by
  have rejects : (do space; relation : Parser Relation).Rejects (gap spaced ++ text) :=
    .after (solid.reads_gap spaced) fun _ _ => rejects_relation noRelation
  have readsGuard : leftGuard.Reads input (gap spaced ++ text) fun guard =>
      ∃ bound, guard = ⟨.lessEqual, bound⟩ ∧ good bound := by
    refine .bind reads fun bound isGood => .bind (.optional_none rejects) ?_
    rintro _ rfl
    exact .pure ⟨bound, rfl, isGood⟩
  refine (reads_leadingGuard_some spaced readsGuard solid).imp ?_
  rintro _ ⟨_, rfl, bound, rfl, isGood⟩
  exact ⟨bound, rfl, isGood⟩

theorem reads_leadingGuard_none (refused : ∀ first ∈ text.head?, isTermStart first = false) :
    leadingGuard.Reads text text (· = none) :=
  .optional_none (.bind (.bind (rejects_term refused)))

theorem reads_leadingGuard {guard : Option Guard} (lexical : Guard.isLexical guard = true)
    (solid : Solid text) (refused : ∀ first ∈ text.head?, isTermStart first = false) :
    leadingGuard.Reads (Guard.writeLeft guard text) text fun found =>
      found.map Guard.erase = guard.map Guard.reread := by
  cases guard with
  | none =>
      refine (reads_leadingGuard_none refused).imp ?_
      rintro _ rfl
      rfl
  | some guard =>
      rw [Guard.writeLeft_some]
      have readable := isReadable_of_isLexical guard.term lexical
      have ends := endsTerm_spaced_relation guard.relation (' ' :: text)
      refine (reads_leadingGuard_relation guard.relation true true (readable.reads_term ends) solid
        (by simp [gap])).imp ?_
      rintro _ ⟨bound, rfl, same⟩
      simp only [Option.map_some, Guard.erase, Guard.reread, same]

theorem reads_trailingGuard {guard : Option Guard} (lexical : Guard.isLexical guard = true)
    (closes : Closes text) (spaced : Bool) :
    trailingGuard.Reads (Guard.writeRight guard (gap spaced ++ text)) (gap spaced ++ text)
      fun found => found.map Guard.erase = guard.map Guard.reread := by
  cases guard with
  | none =>
      have noRelation : (do
          let symbol ← relation
          space
          return symbol : Parser Relation).Rejects text := .bind closes.rejects_relation
      have rejects : (do space; rightGuard : Parser Guard).Rejects (gap spaced ++ text) :=
        .after (closes.solid.reads_gap spaced) fun _ _ =>
          .after (.optional_none noRelation) fun _ _ => .bind closes.rejects_term
      refine (Reads.optional_none rejects).imp ?_
      rintro _ rfl
      rfl
  | some guard =>
      rw [Guard.writeRight_some]
      have readable := isReadable_of_isLexical guard.term lexical
      have solid : Solid (guard.term.write (gap spaced ++ text)) := (readable.1 _).solid
      have reads : (do
          let symbol ← relation
          space
          return symbol : Parser Relation).Reads
          (guard.relation.symbol.toList ++ ' ' :: guard.term.write (gap spaced ++ text))
          (guard.term.write (gap spaced ++ text)) (· = guard.relation) := by
        refine .bind (reads_relation guard.relation (by simp)) ?_
        rintro _ rfl
        exact .bind solid.reads_blank fun _ _ => .pure rfl
      have readsGuard : (do space; rightGuard : Parser Guard).Reads
          (' ' :: (guard.relation.symbol.toList ++ ' ' :: guard.term.write (gap spaced ++ text)))
          (gap spaced ++ text) fun found => found.erase = guard.reread := by
        refine .bind (solid_relation guard.relation _).reads_blank fun _ _ =>
          .bind (.optional_some reads) ?_
        rintro _ ⟨_, rfl, rfl⟩
        refine .bind (readable.reads_term (closes.endsTerm spaced 0)) fun found same => .pure ?_
        simp only [Guard.erase, Guard.reread, same, Option.getD_some]
      refine (Reads.optional_some readsGuard).imp ?_
      rintro _ ⟨found, rfl, same⟩
      rw [Option.map_some, same, Option.map_some]

end Guards

end SoftRules.Grammar
