import SoftRules.Proofs.Grammar.Accepted
import SoftRules.Proofs.Grammar.Term

/-!
Terms and their texts.

The text of a lexical term is read to its end, as the term itself but for negated numbers. As the
grammar answers with lexical terms only, these are all the terms that can be read from their texts:
`Term.read_render_iff` says of any term, however it was built, whether it is one of them.
-/

set_option autoImplicit false

namespace SoftRules

mutual

theorem Term.isLexical_erase : (term : Term) → term.erase.isLexical = term.isLexical
  | .var _ => rfl
  | .symbol (.number _) _ => rfl
  | .symbol (.text _) _ => rfl
  | .function name arguments _ => by
      simp only [Term.erase, Term.isLexical, Term.areLexical_eraseAll arguments]
  | .operation _ [] _ => rfl
  | .operation operator [operand] _ => by
      simp only [Term.erase, Term.eraseAll, Term.isLexical, Term.isLexical_erase operand]
  | .operation operator [left, right] _ => by
      simp only [Term.erase, Term.eraseAll, Term.isLexical, Term.isLexical_erase left,
        Term.isLexical_erase right]
  | .operation _ (_ :: _ :: _ :: _) _ => rfl

theorem Term.areLexical_eraseAll : (terms : List Term) →
    Term.areLexical (Term.eraseAll terms) = Term.areLexical terms
  | [] => rfl
  | term :: terms => by
      simp only [Term.eraseAll, Term.areLexical, Term.isLexical_erase term,
        Term.areLexical_eraseAll terms]

end

namespace Grammar

/-- Every term ends with the text. -/
theorem endsTerm_nil (strength : Nat) : EndsTerm strength [] := by
  refine ⟨by simp [EndsName], by simp, ends_continuation ?_⟩
  exact rejects_infixOperator (by simp [Solid]) [] (by simp) (by simp) (by simp)

end Grammar

namespace Term

/-- The term is read from its own text, to the end and as the same term. -/
def ReadsBack (term : Term) : Prop :=
  ∃ found stop, Grammar.term.read (.start term.render.toList) = .accept found ⟨stop, []⟩ ∧
    found.same term = true

variable {term : Term}

/-- The text of a lexical term is read to its end. -/
theorem reads_render (lexical : term.isLexical = true) :
    ∃ found stop, Grammar.term.read (.start term.render.toList) = .accept found ⟨stop, []⟩ ∧
      found.erase = term.reread := by
  have readable := Grammar.isReadable_of_isLexical term lexical
  have reads := readable.reads_term (Grammar.endsTerm_nil 0) 0
  rwa [Term.write, List.append_nil] at reads

/-- What is the same as a term that the grammar has is such a term itself. -/
theorem ReadsBack.isLexical (readsBack : term.ReadsBack) : term.isLexical = true := by
  obtain ⟨found, stop, accepted, same⟩ := readsBack
  have lexical : found.isLexical = true := Grammar.answers_term _ found _ accepted
  rw [← Term.isLexical_erase, ← (Term.same_iff found term).mp same, Term.isLexical_erase]
  exact lexical

/-- A term is read back from its text exactly if its names are those of variables and functions, its
numbers have 64 bits, its operations are binary ones of two operands and negations of one, and no
operand of a negation is a number that is not negative. -/
theorem read_render_iff (term : Term) :
    term.ReadsBack ↔ term.isLexical = true ∧ term.isFaithful = true := by
  constructor
  · intro readsBack
    have lexical := readsBack.isLexical
    obtain ⟨found, stop, accepted, same⟩ := readsBack
    obtain ⟨reread, last, readAgain, isReread⟩ := reads_render lexical
    rw [accepted] at readAgain
    cases readAgain
    refine ⟨lexical, (Term.reread_eq_erase_iff term).mp ?_⟩
    rw [← isReread, (Term.same_iff found term).mp same]
  · rintro ⟨lexical, faithful⟩
    obtain ⟨found, stop, accepted, isReread⟩ := reads_render lexical
    refine ⟨found, stop, accepted, (Term.same_iff found term).mpr ?_⟩
    rw [isReread, (Term.reread_eq_erase_iff term).mpr faithful]

end Term

end SoftRules
