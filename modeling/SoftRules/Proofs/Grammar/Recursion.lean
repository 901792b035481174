import SoftRules.Grammar.Literal
import SoftRules.Proofs.Parser.Unfolding

/-!
Terms and literals satisfy the equations of their grammar: each of the recursive productions reads
a character before it comes back to itself. It follows that terms and literals are never empty.
-/

set_option autoImplicit false

namespace SoftRules.Grammar

open SoftRules.Parser

theorem consumes_spaceItem : spaceItem.Consumes := by
  refine consumes_firstOf ⟨.bind (consumes_takeWhile1 _ _), consumes_firstOf ?_⟩
  exact ⟨.bind (consumes_word (by decide)), .bind (consumes_word (by decide)),
    consumes_word (by decide)⟩

theorem consumes_token {spelling : String} (nonempty : spelling.toList ≠ []) :
    (token spelling).Consumes :=
  .explain _ (consumes_word nonempty)

theorem consumes_spacedToken {spelling : String} (nonempty : spelling.toList ≠ []) :
    (spacedToken spelling).Consumes :=
  .explain _ (.after fun _ => .bind (consumes_word nonempty))

theorem consumes_name (isFirst : Char → Bool) : (name isFirst).Consumes :=
  .bind (consumes_satisfy _ _)

theorem consumes_integer : integer.Consumes :=
  .convert (.after fun _ => .bind (consumes_takeWhile1 _ _))

theorem consumes_quotedText : quotedText.Consumes :=
  .explain _ (.bind (consumes_char _))

theorem consumes_arguments (term : Parser Term) : (arguments term).Consumes :=
  .bind (consumes_char _)

theorem consumes_primary (term : Parser Term) : (primary term).Consumes := by
  refine .located (consumes_firstOf ⟨?_, ?_, ?_, ?_⟩)
  · exact .bind (.located (.explain _ (.bind (consumes_name _))))
  · exact .bind consumes_quotedText
  · exact .located (.bind (consumes_name _))
  · exact .bind (consumes_arguments term)

theorem consumes_operand (operation : Nat → Parser Term) : (operand operation).Consumes := by
  refine consumes_firstOf ⟨?_, ?_, ?_⟩
  · exact .located (.bind consumes_integer)
  · exact .located (.bind (consumes_char _))
  · exact consumes_primary _

section Terms

variable {bound : Nat} {first second : Parser Term} (agree : AgreeBelow bound first second)

include agree

theorem agreeBelow_arguments : AgreeBelow (bound + 1) (arguments first) (arguments second) :=
  .guard (.refl _) (consumes_char _) fun _ =>
    .bind (.refl _) fun _ => .bind (agree.separated _) fun _ => .refl _

theorem agreeBelow_primary : AgreeBelow (bound + 1) (primary first) (primary second) := by
  have inArguments := agreeBelow_arguments agree
  refine .located (AllAgreeBelow.firstOf (.cons (.refl _) (.cons (.refl _) (.cons ?_ (.cons ?_
    .nil)))))
  · exact .located (.bind (.refl _) fun _ => .bind inArguments.optional fun _ => .refl _)
  · exact .bind inArguments fun _ => .refl _

end Terms

section Operations

variable {bound : Nat} {first second : Nat → Parser Term}
  (agree : ∀ strength, AgreeBelow bound (first strength) (second strength))

include agree

theorem agreeBelow_operand : AgreeBelow (bound + 1) (operand first) (operand second) := by
  refine AllAgreeBelow.firstOf (.cons (.refl _) (.cons ?_ (.cons ?_ .nil)))
  · exact .located (.guard (.refl _) (consumes_char _) fun _ =>
      .bind (.refl _) fun _ => .bind (agree _) fun _ => .refl _)
  · exact agreeBelow_primary ((agree 0).explain _)

theorem agreeBelow_continuation (strength : Nat) :
    AgreeBelow bound (continuation first strength) (continuation second strength) := by
  refine .bind (.refl _) fun found => ?_
  cases found with
  | none => exact .refl _
  | some operator =>
      simp only
      split
      · exact .refl _
      · exact .bind (.refl _) fun _ => .bind (agree _) fun _ => .refl _

end Operations

theorem guarded_operationStep : Guarded operationStep := by
  intro bound first second agree strength
  refine .bind (.refl _) fun _ => ?_
  refine .guard (agreeBelow_operand agree) (consumes_operand first) fun _ => ?_
  exact .bind (agreeBelow_continuation agree strength).rounds fun _ => .refl _

theorem operation_eq (strength : Nat) : operation strength = operationStep operation strength :=
  guarded_operationStep.fix_eq strength

theorem consumes_operation (strength : Nat) : (operation strength).Consumes := by
  rw [operation_eq]
  exact .after fun _ => .bind (consumes_operand _)

theorem consumes_term : term.Consumes := .explain _ (consumes_operation 0)

section Literals

variable {bound : Nat} {first second : Parser Literal} (agree : AgreeBelow bound first second)

include agree

theorem agreeBelow_condition : AgreeBelow bound (condition first) (condition second) :=
  .bind (.optional (.bind (.refl _) fun _ => agree.separated1 _)) fun _ => .refl _

theorem agreeBelow_conditional : AgreeBelow bound (conditional first) (conditional second) :=
  .located (.bind agree fun _ => .bind (agreeBelow_condition agree) fun _ => .refl _)

theorem agreeBelow_element : AgreeBelow bound (element first) (element second) :=
  .bind (.refl _) fun _ => .bind (agreeBelow_condition agree) fun _ => .refl _

omit agree in
theorem agreeBelow_braced {α : Type} {content other : Parser α}
    (agree : AgreeBelow bound content other) :
    AgreeBelow (bound + 1) (braced content) (braced other) :=
  .guard (.refl _) (consumes_char _) fun _ =>
    .bind (.refl _) fun _ => .bind agree fun _ => .refl _

theorem agreeBelow_aggregate : AgreeBelow (bound + 1) (aggregate first) (aggregate second) := by
  have elements := agreeBelow_braced ((agreeBelow_conditional agree).separated (spacedToken ";"))
  exact .located (.bind (.refl _) fun _ => .bind elements fun _ => .refl _)

theorem agreeBelow_bodyAggregate :
    AgreeBelow (bound + 1) (bodyAggregate first) (bodyAggregate second) := by
  have elements := agreeBelow_braced ((agreeBelow_element agree).separated (spacedToken ";"))
  exact .located (.bind (.refl _) fun _ => .bind (.refl _) fun _ => .bind (.refl _) fun _ =>
    .bind elements fun _ => .refl _)

theorem agreeBelow_atom : AgreeBelow (bound + 1) (atom first) (atom second) := by
  refine .explain (AllAgreeBelow.firstOf (.cons (.refl _) (.cons ?_ (.cons ?_ (.cons (.refl _)
    (.cons (.refl _) .nil)))))) _
  · exact .bind (agreeBelow_aggregate agree) fun _ => .refl _
  · exact .bind (agreeBelow_bodyAggregate agree) fun _ => .refl _

theorem agreeBelow_literalStep :
    AgreeBelow (bound + 1) (literalStep first) (literalStep second) :=
  .located (.explain (.bind (.refl _) fun _ => .bind (agreeBelow_atom agree) fun _ => .refl _) _)

end Literals

theorem guarded_literalStep :
    Guarded fun (literal : Unit → Parser Literal) (_ : Unit) => literalStep (literal ()) := by
  intro bound first second agree _
  exact agreeBelow_literalStep (agree ())

theorem literal_eq : literal = literalStep literal :=
  guarded_literalStep.fix_eq ()

theorem consumes_boolean : boolean.Consumes :=
  .located (consumes_firstOf ⟨.bind (consumes_word (by decide)), .bind (consumes_word (by decide))⟩)

theorem consumes_comparison : comparison.Consumes := .located (.bind consumes_term)

theorem consumes_predicate : predicate.Consumes :=
  .located (.after fun _ => .bind (.located (.bind (consumes_name _))))

theorem consumes_aggregate (literal : Parser Literal) : (aggregate literal).Consumes :=
  .located (.after fun _ => .bind (.bind (consumes_char _)))

theorem consumes_bodyAggregate (literal : Parser Literal) : (bodyAggregate literal).Consumes :=
  .located (.after fun _ => .after fun _ => .after fun _ => .bind (.bind (consumes_char _)))

theorem consumes_atom (literal : Parser Literal) : (atom literal).Consumes :=
  .explain _ (consumes_firstOf ⟨consumes_boolean, .bind (consumes_aggregate literal),
    .bind (consumes_bodyAggregate literal), consumes_comparison, consumes_predicate⟩)

theorem consumes_literalStep (literal : Parser Literal) : (literalStep literal).Consumes :=
  .located (.explain _ (.after fun _ => .bind (consumes_atom literal)))

theorem consumes_literal : literal.Consumes := by
  rw [literal_eq]
  exact consumes_literalStep literal

end SoftRules.Grammar
