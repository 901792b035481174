/-!
Log records.
-/

set_option autoImplicit false

namespace SoftRules

/-- Levels of log records, from the most to the least important. -/
inductive Level where
  | error
  | warn
  | info
  | debug
  | trace
  deriving DecidableEq, Repr

namespace Level

def name : Level → String
  | error => "ERROR"
  | warn => "WARN"
  | info => "INFO"
  | debug => "DEBUG"
  | trace => "TRACE"

def rank : Level → Nat
  | error => 1
  | warn => 2
  | info => 3
  | debug => 4
  | trace => 5

end Level

structure LogRecord where
  level : Level
  message : String
  deriving DecidableEq, Repr

end SoftRules
