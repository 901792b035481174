import SoftRules.Encoding.Error
import SoftRules.Log

/-!
Computations that may fail with an encoding error and that write log records. What was written
before a failure is kept.
-/

set_option autoImplicit false

namespace SoftRules

structure Logged (α : Type) where
  result : Except EncodingError α
  log : List LogRecord := []

namespace Logged

instance : Monad Logged where
  pure value := ⟨.ok value, []⟩
  bind step next :=
    match step.result with
    | .ok value =>
        let rest := next value
        ⟨rest.result, step.log ++ rest.log⟩
    | .error error => ⟨.error error, step.log⟩

def fail {α : Type} (cause : EncodingError.Cause) (origin : Origin) : Logged α :=
  ⟨.error ⟨cause, origin⟩, []⟩

def write (level : Level) (message : String) : Logged Unit :=
  ⟨.ok (), [⟨level, message⟩]⟩

variable {α β : Type}

@[simp] theorem result_pure (value : α) : (pure value : Logged α).result = .ok value := rfl

@[simp] theorem log_pure (value : α) : (pure value : Logged α).log = [] := rfl

/-- The result of a computation does not depend on what it writes. -/
@[simp] theorem result_bind (step : Logged α) (next : α → Logged β) :
    (step >>= next).result = step.result >>= fun value => (next value).result := by
  show (bind step next).result = _
  cases h : step.result <;> simp [bind, Except.bind, h]

@[simp] theorem result_write (level : Level) (message : String) :
    (write level message).result = .ok () := rfl

@[simp] theorem result_fail (cause : EncodingError.Cause) (origin : Origin) :
    (fail cause origin : Logged α).result = .error ⟨cause, origin⟩ := rfl

end Logged

end SoftRules
