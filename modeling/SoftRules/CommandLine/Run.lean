import SoftRules.CommandLine.Directory
import SoftRules.CommandLine.Options
import SoftRules.Encoding.Session
import SoftRules.Grammar.Statement

/-!
A run of the command line tool: the programs in the files are read, parsed and encoded one after
the other in one session, and the result is written once all of them have succeeded.
-/

set_option autoImplicit false

namespace SoftRules

/-- What a run needs from its surroundings. -/
structure Host (m : Type → Type) where
  read : String → m (Except FileError String)
  write : String → String → m (Except FileError Unit)
  print : String → m Unit
  log : LogRecord → m Unit
  /-- Shows the user a text that is neither output nor a log record. -/
  report : String → m Unit

inductive RunError where
  | reading (file : String) (error : FileError)
  | parsing (file : String)
  | encoding (file : String)
  | writing (file : String) (error : FileError)
  deriving DecidableEq, Repr

def RunError.message : RunError → String
  | reading file error => "unable to read `" ++ file ++ "`: " ++ error.message
  | parsing file => "unable to parse program `" ++ file ++ "`"
  | encoding file => "unable to translate program `" ++ file ++ "`"
  | writing file error => "unable to write `" ++ file ++ "`: " ++ error.message

namespace Host

variable {m : Type → Type} [Monad m] (host : Host m)

/-- The least important level that is ever shown. -/
def leastLevel : Level := .info

def emit (filter : LogFilter) (area : Area) (record : LogRecord) : m Unit :=
  if record.level.rank ≤ leastLevel.rank && filter.shows area record then host.log record
  else pure ()

def emitAll (filter : LogFilter) (area : Area) : List LogRecord → m Unit
  | [] => pure ()
  | record :: records => do
      host.emit filter area record
      emitAll filter area records

/-- The session and the output after one more file. -/
def encodeFile (filter : LogFilter) (session : Session) (output : Program) (file : String) :
    m (Except RunError (Session × Program)) := do
  host.emit filter .tool ⟨.info, "Translating " ++ file ++ " ..."⟩
  match ← host.read file with
  | .error error => return .error (.reading file error)
  | .ok text =>
      match Program.parse text.toList with
      | .error error =>
          host.report (file ++ ": " ++ error.message text.toList)
          return .error (.parsing file)
      | .ok program =>
          let run := session.encodeAll program
          host.emitAll filter .encoder run.log
          match run.error with
          | some error =>
              host.report (file ++ ": " ++ error.cause.message)
              return .error (.encoding file)
          | none => return .ok (run.session, output ++ run.output)

def encodeFiles (filter : LogFilter) (session : Session) (output : Program) :
    List String → m (Except RunError (Session × Program))
  | [] => return .ok (session, output)
  | file :: files => do
      match ← host.encodeFile filter session output file with
      | .error error => return .error error
      | .ok (session, output) => encodeFiles filter session output files

def save (output : Option String) (text : String) : m (Except RunError Unit) := do
  match output with
  | none =>
      host.print text
      return .ok ()
  | some file =>
      match ← host.write file text with
      | .ok () => return .ok ()
      | .error error => return .error (.writing file error)

def run (filter : LogFilter) (options : Options) : m (Except RunError Unit) := do
  match ← host.encodeFiles filter { mode := options.mode } [] options.files with
  | .error error => return .error error
  | .ok (session, output) =>
      host.emit filter .tool ⟨.info,
        "Translation done, " ++ toString output.length ++ " statements after " ++
          toString session.index ++ " indexed rules"⟩
      host.save options.output (Program.render output)

def version : String := "0.1.0-dev"

def usage : String :=
  "Usage: lpmln [--hr] [--use-unsat] [--two-solve-calls] [--power-of-ten N] [-o FILE] " ++
    "[-v... | -q | --log LEVEL] FILE..."

/-- The exit code for a list of arguments. `environment` is the log filter of the environment. -/
def main (arguments : List String) (environment : Option String) : m Nat := do
  match Request.ofArguments? arguments with
  | none =>
      host.report usage
      return 2
  | some .help =>
      host.report usage
      return 0
  | some .version =>
      host.print ("lpmln-cli " ++ version ++ "\n")
      return 0
  | some (.run options) =>
      let filter := options.verbosity.filter environment
      host.emit filter .tool ⟨.info, "Version: " ++ version⟩
      match ← host.run filter options with
      | .ok () => return 0
      | .error error =>
          host.emit filter .tool ⟨.error, "error: " ++ error.message⟩
          return 1

end Host

/-- The surroundings of a run as a value. -/
structure Surroundings where
  directory : Directory
  printed : String := ""
  log : List LogRecord := []

/-- A run that changes nothing but its surroundings. -/
def Surroundings.host : Host (StateM Surroundings) where
  read file := do return (← get).directory.read file
  write file text := do
    match (← get).directory.write file text with
    | .ok directory =>
        modify ({ · with directory })
        return .ok ()
    | .error error => return .error error
  print text := modify fun surroundings =>
    { surroundings with printed := surroundings.printed ++ text }
  log record := modify fun surroundings =>
    { surroundings with log := surroundings.log ++ [record] }
  report _ := pure ()

end SoftRules
