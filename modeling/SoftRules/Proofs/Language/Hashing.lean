import SoftRules.Proofs.Language.Digest
import Mathlib.Algebra.Ring.Int.Defs
import Mathlib.Algebra.Ring.Nat

/-!
What a hash function reads of a component, byte by byte.

The data of a digest are written one after the other, with nothing in between: numbers as words of
eight bytes, in whichever order the machine has these, flags as one byte, and texts in UTF-8
followed by a byte that UTF-8 does not use. Digests diverge at two data of the same kind, and no
datum is written as the beginning of another one of its kind. So the bytes still tell a component
apart from all others of its sort.
-/

set_option autoImplicit false

namespace SoftRules

/-- How a machine writes words of 64 bits into its memory. -/
structure WordOrder where
  write : BitVec 64 → List UInt8
  length_write (word : BitVec 64) : (write word).length = 8
  eq_of_write_eq {word word' : BitVec 64} (equal : write word = write word') : word = word'

namespace WordOrder

def bytesOf : Nat → Nat → List UInt8
  | 0, _ => []
  | count + 1, value => UInt8.ofNat value :: bytesOf count (value / 256)

theorem length_bytesOf (count value : Nat) : (bytesOf count value).length = count := by
  induction count generalizing value with
  | zero => rfl
  | succ count inductionHypothesis => simp [bytesOf, inductionHypothesis]

theorem eq_of_bytesOf_eq {count value value' : Nat} (bounded : value < 256 ^ count)
    (bounded' : value' < 256 ^ count) (equal : bytesOf count value = bytesOf count value') :
    value = value' := by
  induction count generalizing value value' with
  | zero => omega
  | succ count inductionHypothesis =>
      obtain ⟨byte, bytes⟩ : UInt8.ofNat value = UInt8.ofNat value' ∧
          bytesOf count (value / 256) = bytesOf count (value' / 256) := by
        simpa [bytesOf] using equal
      have lowest : value % 256 = value' % 256 := by simpa using congrArg UInt8.toNat byte
      have highest := inductionHypothesis (by omega) (by omega) bytes
      omega

/-- The order that has the least significant byte first. -/
def leastFirst : WordOrder where
  write word := bytesOf 8 word.toNat
  length_write word := length_bytesOf 8 word.toNat
  eq_of_write_eq equal := BitVec.eq_of_toNat_eq (eq_of_bytesOf_eq (by omega) (by omega) equal)

end WordOrder

/-- The bytes of the text in UTF-8. -/
def utf8 (text : String) : List UInt8 := text.toList.flatMap String.utf8EncodeChar

theorem eq_of_utf8_eq {first second : String} (equal : utf8 first = utf8 second) :
    first = second := by
  rw [← String.toByteArray_inj, ← String.utf8Encode_toList, ← String.utf8Encode_toList]
  exact congrArg List.toByteArray equal

theorem utf8EncodeChar_lt (character : Char) :
    ∀ byte ∈ String.utf8EncodeChar character, byte.toNat < 0xff := by
  simp only [String.utf8EncodeChar]
  generalize character.val.toNat = code
  split_ifs <;> simp [UInt8.toNat_ofNat'] <;> omega

/-- The byte at the end of a text does not occur in it. -/
theorem not_mem_utf8 (text : String) : 0xff ∉ utf8 text := by
  intro occurs
  obtain ⟨character, -, inside⟩ := List.mem_flatMap.1 occurs
  exact absurd (utf8EncodeChar_lt character _ inside) (by decide)

/-- The datum is in the range of the words that it is written as. -/
def Datum.Fits : Datum → Prop
  | .alternative index => index < 2 ^ 64
  | .length size => size < 2 ^ 64
  | .number value => -2 ^ 63 ≤ value ∧ value < 2 ^ 63
  | .text _ => True
  | .flag _ => True

def Datum.bytes (order : WordOrder) : Datum → List UInt8
  | .alternative index => order.write (BitVec.ofNat 64 index)
  | .length size => order.write (BitVec.ofNat 64 size)
  | .number value => order.write (BitVec.ofInt 64 value)
  | .text value => utf8 value ++ [0xff]
  | .flag value => [value.toUInt8]

/-- What is fed to a hash function that is to read the data. -/
def feed (order : WordOrder) (data : List Datum) : List UInt8 := data.flatMap (Datum.bytes order)

theorem WordOrder.eq_of_append_eq (order : WordOrder) {word word' : BitVec 64}
    {rest rest' : List UInt8} (equal : order.write word ++ rest = order.write word' ++ rest') :
    word = word' :=
  order.eq_of_write_eq
    (List.append_inj_left equal ((order.length_write word).trans (order.length_write word').symm))

theorem WordOrder.eq_of_ofNat_append_eq {order : WordOrder} {value value' : Nat}
    {rest rest' : List UInt8} (fits : value < 2 ^ 64) (fits' : value' < 2 ^ 64)
    (equal : order.write (BitVec.ofNat 64 value) ++ rest =
      order.write (BitVec.ofNat 64 value') ++ rest') : value = value' := by
  have values := congrArg BitVec.toNat (order.eq_of_append_eq equal)
  rwa [BitVec.toNat_ofNat, BitVec.toNat_ofNat, Nat.mod_eq_of_lt fits,
    Nat.mod_eq_of_lt fits'] at values

theorem takeWhile_utf8 (text : String) (rest : List UInt8) :
    (utf8 text ++ [0xff] ++ rest).takeWhile (· != 0xff) = utf8 text := by
  rw [List.append_assoc, List.takeWhile_append_of_pos]
  · simp
  · intro byte inside
    have different : byte ≠ 0xff := fun equal => not_mem_utf8 text (equal ▸ inside)
    simpa using different

/-- No datum is written as the beginning of another one of its kind. -/
theorem Datum.eq_of_bytes_eq {order : WordOrder} {datum datum' : Datum} {rest rest' : List UInt8}
    (kind : datum.ctorIdx = datum'.ctorIdx) (fits : datum.Fits) (fits' : datum'.Fits)
    (equal : datum.bytes order ++ rest = datum'.bytes order ++ rest') : datum = datum' := by
  cases datum <;> cases datum' <;> try simp [Datum.ctorIdx] at kind
  case alternative.alternative index index' =>
    rw [WordOrder.eq_of_ofNat_append_eq fits fits' equal]
  case length.length size size' =>
    rw [WordOrder.eq_of_ofNat_append_eq fits fits' equal]
  case number.number value value' =>
    have values := congrArg BitVec.toInt (order.eq_of_append_eq equal)
    rw [BitVec.toInt_ofInt_eq_self (by decide) fits.1 fits.2,
      BitVec.toInt_ofInt_eq_self (by decide) fits'.1 fits'.2] at values
    rw [values]
  case text.text value value' =>
    have texts := congrArg (List.takeWhile (· != 0xff)) equal
    rw [Datum.bytes, Datum.bytes, takeWhile_utf8, takeWhile_utf8] at texts
    rw [eq_of_utf8_eq texts]
  case flag.flag value value' =>
    have injective : ∀ value value' : Bool, value.toUInt8 = value'.toUInt8 → value = value' := by
      decide
    rw [injective value value' (List.cons.inj equal).1]

theorem Diverge.feed_ne (order : WordOrder) {first second : List Datum}
    (diverged : Diverge first second) (fits : ∀ datum ∈ first, datum.Fits)
    (fits' : ∀ datum ∈ second, datum.Fits) :
    feed order first ≠ feed order second := by
  induction diverged with
  | here kind different =>
      intro equal
      simp only [feed, List.flatMap_cons] at equal
      exact different (Datum.eq_of_bytes_eq kind (fits _ (by simp)) (fits' _ (by simp)) equal)
  | later datum _ inductionHypothesis =>
      intro equal
      simp only [feed, List.flatMap_cons, List.append_cancel_left_eq] at equal
      exact inductionHypothesis (fun other inside => fits other (.tail _ inside))
        (fun other inside => fits' other (.tail _ inside)) equal

/-- Origins count neither for equality nor for the text, nor for what a hash function reads, and
all else counts for equality and for what it reads. -/
structure IgnoresOrigins {α : Type} (same : α → α → Bool) (erase : α → α) (render : α → String)
    (digest : α → List Datum) : Prop where
  same_iff (first second : α) : same first second = true ↔ erase first = erase second
  render_eq (first second : α) (equal : same first second = true) : render first = render second
  digest_eq_iff (first second : α) : digest first = digest second ↔ same first second = true
  feed_eq_iff (order : WordOrder) (first second : α) (fits : ∀ datum ∈ digest first, datum.Fits)
    (fits' : ∀ datum ∈ digest second, datum.Fits) :
    feed order (digest first) = feed order (digest second) ↔ same first second = true

theorem IgnoresOrigins.of_tells {α : Type} {same : α → α → Bool} {erase : α → α}
    {render : α → String} {digest : α → List Datum}
    (same_iff : ∀ first second, same first second = true ↔ erase first = erase second)
    (render_erase : ∀ content, render (erase content) = render content)
    (tells : ∀ first second, Tells (erase first = erase second) (digest first) (digest second)) :
    IgnoresOrigins same erase render digest where
  same_iff := same_iff
  render_eq first second equal := by
    rw [← render_erase first, (same_iff first second).1 equal, render_erase]
  digest_eq_iff first second := (tells first second).eq_iff.trans (same_iff first second).symm
  feed_eq_iff order first second fits fits' := by
    rw [same_iff]
    constructor
    · intro equal
      by_contra different
      exact ((tells first second).diverge different).feed_ne order fits fits' equal
    · intro equal
      rw [(tells first second).eq_iff.2 equal]

/-- Equality, hashing and printing ignore exactly the origins. -/
theorem origins_do_not_count :
    IgnoresOrigins Statement.same Statement.erase Statement.render Statement.digest ∧
    IgnoresOrigins Term.same Term.erase Term.render Term.digest ∧
    IgnoresOrigins Atom.same Atom.erase Atom.render Atom.digest ∧
    IgnoresOrigins Literal.same Literal.erase Literal.render Literal.digest ∧
    IgnoresOrigins Aggregate.same Aggregate.erase Aggregate.render Aggregate.digest ∧
    IgnoresOrigins BodyAggregate.same BodyAggregate.erase BodyAggregate.render
      BodyAggregate.digest ∧
    IgnoresOrigins TheoryAtom.same TheoryAtom.erase TheoryAtom.render TheoryAtom.digest ∧
    IgnoresOrigins Head.same Head.erase Head.render Head.digest ∧
    IgnoresOrigins BodyElement.same BodyElement.erase BodyElement.render BodyElement.digest :=
  ⟨.of_tells Statement.same_iff Statement.render_erase Statement.tells,
    .of_tells Term.same_iff Term.render_erase Term.tells,
    .of_tells Atom.same_iff Atom.render_erase Atom.tells,
    .of_tells Literal.same_iff Literal.render_erase Literal.tells,
    .of_tells Aggregate.same_iff Aggregate.render_erase Aggregate.tells,
    .of_tells BodyAggregate.same_iff BodyAggregate.render_erase BodyAggregate.tells,
    .of_tells TheoryAtom.same_iff TheoryAtom.render_erase TheoryAtom.tells,
    .of_tells Head.same_iff Head.render_erase Head.tells,
    .of_tells BodyElement.same_iff BodyElement.render_erase BodyElement.tells⟩

/-- `f(g(1))` and `f(g,1)` have the same names and numbers in the same order. -/
theorem origins_do_not_count_nested :
    let nested : Term := .function "f" [.function "g" [.number 1]]
    let flat : Term := .function "f" [.function "g" [], .number 1]
    (∀ datum ∈ nested.digest, datum.Fits) ∧ (∀ datum ∈ flat.digest, datum.Fits) ∧
      nested.erase ≠ flat.erase ∧ nested.same flat = false ∧
      feed .leastFirst nested.digest ≠ feed .leastFirst flat.digest := by
  intro nested flat
  have fits : ∀ datum ∈ nested.digest, datum.Fits := by
    simp [nested, Term.number, Term.digest, Term.digestAll, Symbol.digest, Datum.Fits]
  have fits' : ∀ datum ∈ flat.digest, datum.Fits := by
    simp [flat, Term.number, Term.digest, Term.digestAll, Symbol.digest, Datum.Fits]
  have different : nested.same flat = false := by
    simp [nested, flat, Term.same, Term.sameAll]
  have terms := origins_do_not_count.2.1
  refine ⟨fits, fits', ?_, different, ?_⟩
  · rw [ne_eq, ← terms.same_iff, different]
    exact Bool.false_ne_true
  · rw [ne_eq, terms.feed_eq_iff .leastFirst nested flat fits fits', different]
    exact Bool.false_ne_true

end SoftRules
