import SoftRules.Proofs.Grammar.Space
import SoftRules.Proofs.Language.Lexical

/-!
How names, numbers and strings are read back from their texts.
-/

set_option autoImplicit false

namespace SoftRules.Grammar

open SoftRules.Parser

variable {rest : List Char}

theorem isUpper_classes {character : Char} (isUpper : character.isUpper = true) :
    character.isDigit = false ∧ character.isLower = false := by
  simp only [isUpper_eq, Char.isDigit, isLower_eq, decide_eq_true_eq, UInt32.le_iff_toNat_le,
    ge_iff_le, Bool.and_eq_false_iff, decide_eq_false_iff_not] at isUpper ⊢
  have upper : 'A'.val.toNat = 65 ∧ 'Z'.val.toNat = 90 := ⟨rfl, rfl⟩
  have lower : 'a'.val.toNat = 97 ∧ 'z'.val.toNat = 122 := ⟨rfl, rfl⟩
  have digit : '0'.val.toNat = 48 ∧ '9'.val.toNat = 57 := ⟨rfl, rfl⟩
  omega

theorem isVariableStart_noDigit {character : Char} (isStart : isVariableStart character = true) :
    character.isDigit = false := by
  simp only [isVariableStart, Bool.or_eq_true, beq_iff_eq] at isStart
  rcases isStart with isUpper | rfl
  · exact (isUpper_classes isUpper).1
  · decide

theorem isLower_classes {character : Char} (isLower : character.isLower = true) :
    character.isDigit = false ∧ isVariableStart character = false := by
  have noUnderscore : (character == '_') = false := by
    apply beq_false_of_ne
    rintro rfl
    cases isLower
  rw [isVariableStart, noUnderscore, Bool.or_false]
  simp only [isUpper_eq, Char.isDigit, isLower_eq, Bool.and_eq_true, decide_eq_true_eq,
    UInt32.le_iff_toNat_le, ge_iff_le, Bool.and_eq_false_iff, decide_eq_false_iff_not] at isLower ⊢
  have upper : 'A'.val.toNat = 65 ∧ 'Z'.val.toNat = 90 := ⟨rfl, rfl⟩
  have lower : 'a'.val.toNat = 97 ∧ 'z'.val.toNat = 122 := ⟨rfl, rfl⟩
  have digit : '0'.val.toNat = 48 ∧ '9'.val.toNat = 57 := ⟨rfl, rfl⟩
  omega

theorem isDigit_classes {character : Char} (isDigit : character.isDigit = true) :
    character.isLower = false ∧ isVariableStart character = false := by
  refine ⟨?_, ?_⟩
  · cases isLower : character.isLower with
    | false => rfl
    | true =>
        rw [(isLower_classes isLower).1] at isDigit
        cases isDigit
  · cases isStart : isVariableStart character with
    | false => rfl
    | true =>
        rw [isVariableStart_noDigit isStart] at isDigit
        cases isDigit

/-- The text does not go on with a name. -/
def EndsName (rest : List Char) : Prop :=
  ∀ next ∈ rest.head?, isNameCharacter next = false

theorem isName_cons {isFirst : Char → Bool} {name : String} (valid : isName isFirst name = true) :
    ∃ first others, name.toList = first :: others ∧ isFirst first = true ∧
      ∀ next ∈ others, isNameCharacter next = true := by
  unfold isName at valid
  split at valid
  · cases valid
  · next first others shape =>
      rw [Bool.and_eq_true, List.all_eq_true] at valid
      exact ⟨first, others, shape, valid.1, valid.2⟩

theorem reads_name {isFirst : Char → Bool} {name : String} (valid : isName isFirst name = true)
    (ends : EndsName rest) :
    (Grammar.name isFirst).Reads (name.toList ++ rest) rest (· = name) := by
  obtain ⟨first, others, shape, isStart, areOthers⟩ := isName_cons valid
  rw [shape]
  refine .bind (.satisfy _ isStart) ?_
  rintro _ rfl
  refine .bind (.takeWhile areOthers ends) ?_
  rintro _ rfl
  refine .pure ?_
  rw [← shape, String.ofList_toList]

theorem rejects_name {isFirst : Char → Bool} {text : List Char}
    (refused : ∀ first ∈ text.head?, isFirst first = false) :
    (Grammar.name isFirst).Rejects text :=
  .bind (rejects_satisfy _ refused)

theorem reads_variableName {x : Variable} (valid : isName isVariableStart x.name = true)
    (ends : EndsName rest) :
    variableName.Reads (x.name.toList ++ rest) rest fun found => found.erase = x.erase := by
  refine .located (.expecting _ (.bind (reads_name valid ends) ?_))
  rintro _ rfl
  exact .pure fun _ => rfl

theorem ofDigits_toDigits (value : Nat) : Number.ofDigits (Nat.toDigits 10 value) = value := by
  have digits := Nat.ofDigitChars_ten_toDigits (n := value)
  rw [Nat.ofDigitChars_eq_foldl] at digits
  exact digits

theorem EndsName.digits (ends : EndsName rest) : ∀ next ∈ rest.head?, next.isDigit = false := by
  intro next isNext
  have noName := ends next isNext
  simp only [isNameCharacter, Char.isAlphanum, Bool.or_eq_false_iff] at noName
  exact noName.1.1.2

theorem reads_digits (value : Nat) (ends : EndsName rest) :
    digits.Reads (Nat.toDigits 10 value ++ rest) rest (· = Nat.toDigits 10 value) :=
  .takeWhile1 _ (Nat.toDigits_ne_nil)
    (fun _ member => Nat.isDigit_of_mem_toDigits (by decide) (by decide) member) ends.digits

theorem toDigits_cons (value : Nat) : ∃ first others, Nat.toDigits 10 value = first :: others ∧
    first.isDigit = true := by
  cases shape : Nat.toDigits 10 value with
  | nil => exact absurd shape Nat.toDigits_ne_nil
  | cons first others =>
      refine ⟨first, others, rfl, ?_⟩
      exact Nat.isDigit_of_mem_toDigits (by decide) (by decide) (shape ▸ List.mem_cons_self ..)

/-- The text of an integer: its digits, after a minus if it is negative. -/
theorem toList_toString (value : Int) :
    (toString value).toList =
      if value < 0 then '-' :: Nat.toDigits 10 value.natAbs else Nat.toDigits 10 value.natAbs := by
  cases value with
  | ofNat value =>
      change (Nat.repr value).toList = _
      rw [Nat.repr_eq_ofList_toDigits, String.toList_ofList, if_neg (by simp)]
      rfl
  | negSucc value =>
      change ("-" ++ Nat.repr (value + 1)).toList = _
      have digits : (Nat.repr (value + 1)).toList = Nat.toDigits 10 (value + 1) := by
        rw [Nat.repr_eq_ofList_toDigits, String.toList_ofList]
      rw [String.toList_append, digits, if_pos (Int.negSucc_lt_zero value)]
      rfl

theorem reads_integer {value : Int} (fits : Number.fitsInt64 value = true) (ends : EndsName rest) :
    integer.Reads ((toString value).toList ++ rest) rest (· = value) := by
  simp only [Number.fitsInt64, Bool.and_eq_true, decide_eq_true_eq] at fits
  have converted (found : Int) (same : found = value) :
      ∃ result, (if found < Number.minInt64 then Except.error .integerTooSmall
        else if Number.maxInt64 < found then .error .integerTooLarge
        else .ok found : Except ParseError.Cause Int) = .ok result ∧ result = value := by
    rw [same, if_neg (by omega), if_neg (by omega)]
    exact ⟨value, rfl, rfl⟩
  refine .convert ?_
  rw [toList_toString]
  split
  · next negative =>
      refine .bind (.optional_some (.char '-' _)) ?_
      rintro _ ⟨_, rfl, _⟩
      refine .bind (reads_digits _ ends) ?_
      rintro _ rfl
      refine .pure (converted _ ?_)
      simp only [Option.isSome_some, if_true, ofDigits_toDigits]
      omega
  · next positive =>
      obtain ⟨first, others, shape, isDigit⟩ := toDigits_cons value.natAbs
      have noMinus : '-' ∉ (Nat.toDigits 10 value.natAbs ++ rest).head? := by
        rw [shape]
        rintro isMinus
        cases isMinus
        cases isDigit
      refine .bind (.optional_none (rejects_char noMinus)) ?_
      rintro _ rfl
      refine .bind (reads_digits _ ends) ?_
      rintro _ rfl
      refine .pure (converted _ ?_)
      simp only [Option.isSome_none, Bool.false_eq_true, if_false, ofDigits_toDigits]
      omega

/-- An integer that does not fit into 64 bits is not read. -/
theorem rejects_integer_large {value : Nat} (large : Number.maxInt64 < value)
    (ends : EndsName rest) : integer.Rejects (Nat.toDigits 10 value ++ rest) := by
  obtain ⟨first, others, shape, isDigit⟩ := toDigits_cons value
  have noMinus : '-' ∉ (Nat.toDigits 10 value ++ rest).head? := by
    rw [shape]
    rintro isMinus
    cases isMinus
    cases isDigit
  have positive : ¬ (value : Int) < Number.minInt64 := by
    have limit : Number.minInt64 = -9223372036854775808 := rfl
    omega
  have reads : (do return ((← optional (char '-')).isSome, ← digits) :
      Parser (Bool × List Char)).Reads (Nat.toDigits 10 value ++ rest) rest
      (· = (false, Nat.toDigits 10 value)) := by
    refine .bind (.optional_none (rejects_char noMinus)) ?_
    rintro _ rfl
    refine .bind (reads_digits value ends) ?_
    rintro _ rfl
    exact .pure rfl
  refine rejects_convert (reads.imp ?_)
  rintro _ rfl
  refine ⟨.integerTooLarge, ?_⟩
  simp only [Bool.false_eq_true, if_false, ofDigits_toDigits, positive, large, if_true]

theorem rejects_digits {text : List Char} (refused : ∀ first ∈ text.head?, first.isDigit = false) :
    digits.Rejects text :=
  rejects_takeWhile1 _ refused

theorem rejects_integer {text : List Char} (noMinus : '-' ∉ text.head?)
    (refused : ∀ first ∈ text.head?, first.isDigit = false) : integer.Rejects text := by
  refine .convert (.after (.optional_none (rejects_char noMinus)) ?_)
  intro _ _
  exact .bind (rejects_digits refused)

theorem rejects_integer_minus {text : List Char}
    (refused : ∀ first ∈ text.head?, first.isDigit = false) : integer.Rejects ('-' :: text) := by
  refine .convert (.after (.optional_some (.char '-' _)) ?_)
  intro _ _
  exact .bind (rejects_digits refused)

/-! Strings. -/

/-- A part of a quoted string: characters that stand for themselves, or an escape. -/
def textPart : Parser (List Char) :=
  firstOf
    [takeWhile1 (fun character => character != '\\' && character != '"') .noneOf,
    do
      char '\\'
      return [unescape (← oneOf ['\\', '"', 'n', 't'])]]

/-- Whether a character is written as an escape. -/
def isEscaped (character : Char) : Bool :=
  character == '"' || character == '\\' || character == '\n' || character == '\t'

theorem escape_of_not_escaped {character : Char} (plain : isEscaped character = false) :
    escape character = [character] ∧ (character != '\\' && character != '"') = true := by
  simp only [isEscaped, Bool.or_eq_false_iff, beq_eq_false_iff_ne] at plain
  obtain ⟨⟨⟨noQuote, noBackslash⟩, noNewline⟩, noTab⟩ := plain
  refine ⟨?_, by simp [noQuote, noBackslash]⟩
  unfold escape
  split
  · exact absurd rfl noQuote
  · exact absurd rfl noBackslash
  · exact absurd rfl noNewline
  · exact absurd rfl noTab
  · rfl

theorem reads_textPart_escape {letter : Char}
    (listed : ['\\', '"', 'n', 't'].contains letter = true) (rest : List Char) :
    textPart.Reads ('\\' :: letter :: rest) rest (· = [unescape letter]) := by
  refine .firstOf (.tail (rejects_takeWhile1 _ ?_) (.head ?_))
  · intro first isFirst
    cases isFirst
    rfl
  · refine .bind (.char _ _) fun _ _ => .bind (.satisfy _ listed) ?_
    rintro _ rfl
    exact .pure rfl

theorem reads_escape {character : Char} (escaped : isEscaped character = true) (rest : List Char) :
    textPart.Reads (escape character ++ rest) rest (· = [character]) := by
  simp only [isEscaped, Bool.or_eq_true, beq_iff_eq] at escaped
  rcases escaped with ((rfl | rfl) | rfl) | rfl
  · exact @reads_textPart_escape '"' (by decide) rest
  · exact @reads_textPart_escape '\\' (by decide) rest
  · exact @reads_textPart_escape 'n' (by decide) rest
  · exact @reads_textPart_escape 't' (by decide) rest

theorem flatMap_escape {characters : List Char}
    (plain : ∀ character ∈ characters, isEscaped character = false) :
    characters.flatMap escape = characters := by
  induction characters with
  | nil => rfl
  | cons first others inductionHypothesis =>
      rw [List.flatMap_cons, (escape_of_not_escaped (plain first (List.mem_cons_self ..))).1,
        inductionHypothesis fun next member => plain next (List.mem_cons_of_mem _ member)]
      rfl

/-- The characters up to the next one that is written as an escape. -/
theorem exists_plain_run {first : Char} (plain : isEscaped first = false) (others : List Char) :
    ∃ run remainder, first :: others = run ++ remainder ∧ run ≠ [] ∧
      (∀ character ∈ run, isEscaped character = false) ∧
      ∀ next ∈ remainder.head?, isEscaped next = true := by
  refine ⟨(first :: others).takeWhile (!isEscaped ·), (first :: others).dropWhile (!isEscaped ·),
    List.takeWhile_append_dropWhile.symm, ?_, ?_, ?_⟩
  · simp [plain]
  · intro character member
    have taken := List.all_takeWhile (p := (!isEscaped ·)) (l := first :: others)
    simpa using List.all_eq_true.mp taken character member
  · intro next isNext
    have stops := List.head?_dropWhile_not (!isEscaped ·) (first :: others)
    rw [Option.mem_def.mp isNext] at stops
    simpa using stops

theorem head_flatMap_escape {remainder : List Char}
    (stops : ∀ next ∈ remainder.head?, isEscaped next = true) (rest : List Char) :
    ∀ next ∈ (remainder.flatMap escape ++ '"' :: rest).head?,
      (next != '\\' && next != '"') = false := by
  intro next isNext
  cases remainder with
  | nil =>
      cases isNext
      rfl
  | cons first others =>
      have escaped := stops first rfl
      simp only [isEscaped, Bool.or_eq_true, beq_iff_eq] at escaped
      rcases escaped with ((rfl | rfl) | rfl) | rfl
      all_goals
        cases isNext
        rfl

theorem rejects_textPart (rest : List Char) : textPart.Rejects ('"' :: rest) := by
  refine rejects_firstOf (.cons (rejects_takeWhile1 _ ?_) (.cons (.bind (rejects_char ?_)) .nil))
  · intro first isFirst
    cases isFirst
    rfl
  · intro isFirst
    cases isFirst

theorem reads_textParts (characters rest : List Char) :
    (many textPart).Reads (characters.flatMap escape ++ '"' :: rest) ('"' :: rest)
      fun parts => parts.flatten = characters := by
  -- A run of characters that stand for themselves is read at once, so the induction is on the
  -- length of the string.
  induction size : characters.length using Nat.strongRecOn generalizing characters with
  | ind size inductionHypothesis =>
      subst size
      cases characters with
      | nil =>
          refine (Reads.many_nil (rejects_textPart rest)).imp ?_
          rintro _ rfl
          rfl
      | cons first others =>
          by_cases escaped : isEscaped first = true
          · have behind := inductionHypothesis others.length (by simp) others rfl
            rw [List.flatMap_cons, List.append_assoc]
            have shorter : (others.flatMap escape ++ '"' :: rest).length <
                (escape first ++ (others.flatMap escape ++ '"' :: rest)).length := by
              have nonempty : escape first ≠ [] := by
                unfold escape
                split <;> simp
              have positive := List.length_pos_iff.mpr nonempty
              simp only [List.length_append]
              omega
            refine (Reads.many_cons (reads_escape escaped _) shorter behind).imp ?_
            rintro parts ⟨part, parts, rfl, rfl, isRest⟩
            rw [List.flatten_cons, isRest]
            rfl
          · obtain ⟨run, remainder, shape, nonempty, plain, stops⟩ :=
              exists_plain_run (Bool.eq_false_iff.mpr escaped) others
            have size := congrArg List.length shape
            rw [List.length_append] at size
            have positive := List.length_pos_iff.mpr nonempty
            have behind := inductionHypothesis remainder.length (by omega) remainder rfl
            rw [shape, List.flatMap_append, flatMap_escape plain, List.append_assoc]
            have shorter : (remainder.flatMap escape ++ '"' :: rest).length <
                (run ++ (remainder.flatMap escape ++ '"' :: rest)).length := by
              simp only [List.length_append]
              omega
            have reads : textPart.Reads (run ++ (remainder.flatMap escape ++ '"' :: rest))
                (remainder.flatMap escape ++ '"' :: rest) (· = run) :=
              .firstOf (.head (.takeWhile1 _ nonempty
                (fun next member => (escape_of_not_escaped (plain next member)).2)
                (head_flatMap_escape stops rest)))
            refine (Reads.many_cons reads shorter behind).imp ?_
            rintro parts ⟨part, parts, rfl, rfl, isRest⟩
            rw [List.flatten_cons, isRest]

theorem reads_quotedText (value : String) (rest : List Char) :
    quotedText.Reads ((Symbol.text value).render.toList ++ rest) rest (· = value) := by
  have shape : (Symbol.text value).render.toList ++ rest =
      '"' :: (value.toList.flatMap escape ++ '"' :: rest) := by
    simp [Symbol.render]
  rw [shape]
  refine .expecting _ (.bind (.char _ _) fun _ _ => .bind (reads_textParts _ _) ?_)
  intro parts isText
  refine .bind (.char _ _) fun _ _ => .pure ?_
  rw [isText, String.ofList_toList]

theorem rejects_quotedText {text : List Char} (refused : '"' ∉ text.head?) :
    quotedText.Rejects text :=
  .expecting _ (.bind (rejects_char refused))

end SoftRules.Grammar
