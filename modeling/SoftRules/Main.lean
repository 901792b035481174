import SoftRules.CommandLine.Run

/-!
The command line tool.
-/

set_option autoImplicit false

namespace SoftRules

def FileError.ofSystem : IO.Error → FileError
  | .noFileOrDirectory .. => .missing
  | .inappropriateType .. => .isADirectory
  | error => .other (toString error)

def Host.system : Host IO where
  read file := do
    try
      return Directory.decode (← IO.FS.readBinFile file)
    catch error => return .error (.ofSystem error)
  write file text := do
    try
      IO.FS.writeFile file text
      return .ok ()
    catch error => return .error (.ofSystem error)
  print text := do
    let output ← IO.getStdout
    output.putStr text
    output.flush
  log record := IO.eprintln ("[" ++ record.level.name ++ "] " ++ record.message)
  report text := IO.eprintln text

end SoftRules

def main (arguments : List String) : IO UInt32 := do
  let code ← SoftRules.Host.system.main arguments (← IO.getEnv "LPMLN_LOG")
  return code.toUInt32
