import SoftRules.CommandLine.LogFilter
import SoftRules.Encoding.Mode
import SoftRules.Number.Integer

/-!
The options of the command line.

Options may stand before, between and after the files; everything after `--` is a file. A value
follows its option, as an argument of its own or, for long options, behind `=` and, for short ones,
immediately. Only `-v` may be repeated.
-/

set_option autoImplicit false

namespace SoftRules

inductive Verbosity where
  | unchanged
  | verbose (count : Nat)
  | quiet
  | level (level : Level)
  deriving DecidableEq, Repr

structure Options where
  files : List String
  output : Option String
  mode : Mode
  verbosity : Verbosity
  deriving DecidableEq, Repr

inductive Request where
  | run (options : Options)
  | help
  | version
  deriving DecidableEq, Repr

namespace Options

/-- What has been said so far. -/
structure Draft where
  files : List String := []
  output : Option String := none
  power : Option Int := none
  level : Option Level := none
  encodeHard : Bool := false
  markViolations : Bool := false
  switchPenalties : Bool := false
  quiet : Bool := false
  verbose : Nat := 0

inductive Flag where
  | encodeHard
  | markViolations
  | switchPenalties
  | quiet
  | verbose
  | help
  | version

inductive Setting where
  | output
  | power
  | level

inductive Key where
  | flag (flag : Flag)
  | setting (setting : Setting)

def longKey? : String → Option Key
  | "hr" => some (.flag .encodeHard)
  | "use-unsat" => some (.flag .markViolations)
  | "two-solve-calls" => some (.flag .switchPenalties)
  | "quiet" => some (.flag .quiet)
  | "verbose" => some (.flag .verbose)
  | "help" => some (.flag .help)
  | "version" => some (.flag .version)
  | "output" => some (.setting .output)
  | "power-of-ten" => some (.setting .power)
  | "log" => some (.setting .level)
  | _ => none

def shortKey? : Char → Option Key
  | 'q' => some (.flag .quiet)
  | 'v' => some (.flag .verbose)
  | 'h' => some (.flag .help)
  | 'V' => some (.flag .version)
  | 'o' => some (.setting .output)
  | _ => none

/-- Why reading the arguments ends early: they are wrong, or they ask for something else than a
run. -/
inductive Stop where
  | misuse
  | help
  | version

/-- Sets a switch that must still be off. -/
def switchOn (isOn : Bool) (draft : Draft) : Except Stop Draft :=
  if isOn then .error .misuse else .ok draft

def setFlag (draft : Draft) : Flag → Except Stop Draft
  | .encodeHard => switchOn draft.encodeHard { draft with encodeHard := true }
  | .markViolations => switchOn draft.markViolations { draft with markViolations := true }
  | .switchPenalties => switchOn draft.switchPenalties { draft with switchPenalties := true }
  | .quiet => switchOn draft.quiet { draft with quiet := true }
  | .verbose => .ok { draft with verbose := draft.verbose + 1 }
  | .help => .error .help
  | .version => .error .version

def power? (text : String) : Option Int :=
  (Number.integer? text.toList).filter Number.fitsInt32

def level? : String → Option Level
  | "error" => some .error
  | "warn" => some .warn
  | "info" => some .info
  | "debug" => some .debug
  | "trace" => some .trace
  | _ => none

def setValue (draft : Draft) (setting : Setting) (value : String) : Except Stop Draft :=
  match setting with
  | .output =>
      if value.isEmpty || draft.output.isSome then .error .misuse
      else .ok { draft with output := some value }
  | .power =>
      match power? value with
      | some power =>
          if draft.power.isSome then .error .misuse else .ok { draft with power := some power }
      | none => .error .misuse
  | .level =>
      match level? value with
      | some level =>
          if draft.level.isSome then .error .misuse else .ok { draft with level := some level }
      | none => .error .misuse

def addFile (draft : Draft) (file : String) : Except Stop Draft :=
  if file.isEmpty then .error .misuse else .ok { draft with files := draft.files ++ [file] }

/-- Whether an argument can be the value of the option in front of it. One that looks like an
option cannot, except for negative numbers. -/
def isValue (setting : Setting) (argument : String) : Bool :=
  match argument.toList, setting with
  | ['-'], _ => true
  | '-' :: _, .power => (power? argument).isSome
  | '-' :: _, _ => false
  | _, _ => true

/-- Short options in one argument. A setting takes the rest of the argument as its value, without
an equals sign in front; if nothing is left, its value is still to come. -/
def readShort (draft : Draft) : List Char → Except Stop (Draft × Option Setting)
  | [] => .ok (draft, none)
  | character :: others =>
      match shortKey? character with
      | some (.flag flag) => do readShort (← setFlag draft flag) others
      | some (.setting setting) =>
          match others with
          | [] => .ok (draft, some setting)
          | '=' :: value => do return (← setValue draft setting (String.ofList value), none)
          | value => do return (← setValue draft setting (String.ofList value), none)
      | none => .error .misuse

/-- A long option without its dashes. -/
def readLong (draft : Draft) (text : List Char) : Except Stop (Draft × Option Setting) :=
  let name := String.ofList (text.takeWhile (· != '='))
  match longKey? name, text.dropWhile (· != '=') with
  | some (.flag flag), [] => do return (← setFlag draft flag, none)
  | some (.flag _), _ => .error .misuse
  | some (.setting setting), [] => .ok (draft, some setting)
  | some (.setting setting), _ :: value => do
      return (← setValue draft setting (String.ofList value), none)
  | none, _ => .error .misuse

/-- One argument, and the setting that still waits for its value after it. -/
def readArgument (draft : Draft) (argument : String) : Except Stop (Draft × Option Setting) :=
  match argument.toList with
  | '-' :: '-' :: text => readLong draft text
  | '-' :: character :: text => readShort draft (character :: text)
  | _ => do return (← addFile draft argument, none)

def readFiles (draft : Draft) : List String → Except Stop Draft
  | [] => .ok draft
  | file :: files => do readFiles (← addFile draft file) files

def readArguments (draft : Draft) (waiting : Option Setting) : List String → Except Stop Draft
  | [] => if waiting.isSome then .error .misuse else .ok draft
  | argument :: others =>
      match waiting with
      | some setting =>
          if isValue setting argument then do
            readArguments (← setValue draft setting argument) none others
          else .error .misuse
      | none =>
          if argument == "--" then readFiles draft others
          else do
            let (draft, waiting) ← readArgument draft argument
            readArguments draft waiting others

/-- At most one option may say what is logged. -/
def verbosity? (draft : Draft) : Option Verbosity :=
  match draft.verbose, draft.quiet, draft.level with
  | 0, false, none => some .unchanged
  | count + 1, false, none => some (.verbose (count + 1))
  | 0, true, none => some .quiet
  | 0, false, some level => some (.level level)
  | _, _, _ => none

def ofDraft (draft : Draft) : Except Stop Options :=
  match verbosity? draft with
  | none => .error .misuse
  | some verbosity =>
      if draft.files.isEmpty then .error .misuse
      else
        .ok {
          files := draft.files
          output := draft.output
          mode := {
            encodeHard := draft.encodeHard
            markViolations := draft.markViolations
            switchPenalties := draft.switchPenalties
            power := draft.power.getD defaultPower }
          verbosity }

end Options

/-- What the arguments ask for, if they are right. -/
def Request.ofArguments? (arguments : List String) : Option Request :=
  match Options.readArguments {} none arguments >>= Options.ofDraft with
  | .ok options => some (.run options)
  | .error .help => some .help
  | .error .version => some .version
  | .error .misuse => none

/-- The log filter of a run: warnings and errors unless the environment or the options ask for
something else. -/
def Verbosity.filter (verbosity : Verbosity) (environment : Option String) : LogFilter :=
  let filter := LogFilter.set {} ⟨none, Level.warn.rank⟩
  let filter := (environment.map filter.add).getD filter
  match verbosity with
  | unchanged => filter
  | verbose count => filter.set ⟨none, min (Level.warn.rank + count) LogFilter.highestRank⟩
  | quiet => filter.set ⟨none, Level.error.rank⟩
  | level least => { filter.set ⟨none, least.rank⟩ with message := none }

end SoftRules
