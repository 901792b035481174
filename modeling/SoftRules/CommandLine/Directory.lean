/-!
A working directory as a finite map from paths to file contents, and the failures of reading and
writing files.
-/

set_option autoImplicit false

namespace SoftRules

inductive FileError where
  | missing
  | notADirectory
  | isADirectory
  | notText
  | other (reason : String)
  deriving DecidableEq, Repr

def FileError.message : FileError → String
  | missing => "No such file or directory (os error 2)"
  | notADirectory => "Not a directory (os error 20)"
  | isADirectory => "Is a directory (os error 21)"
  | notText => "stream did not contain valid UTF-8"
  | other reason => reason

/-- The names on the way to a file. -/
abbrev FilePath := List String

/-- The files below a directory. Directories exist as far as files are in them. -/
structure Directory where
  files : List (FilePath × ByteArray)

namespace Directory

/-- Where a path leads: to a place below the directory, or out of it. -/
inductive Place where
  | inside (path : FilePath)
  | ancestor
  | elsewhere

namespace Place

/-- One step along a path. -/
def step : Place → String → Place
  | place, "" => place
  | place, "." => place
  | inside [], ".." => ancestor
  | inside path, ".." => inside path.dropLast
  | inside path, name => inside (path ++ [name])
  | ancestor, ".." => ancestor
  | ancestor, _ => elsewhere
  | elsewhere, _ => elsewhere

def ofPath (path : String) : Place :=
  if path.toList.head? == some '/' then elsewhere
  else (path.splitOn "/").foldl step (inside [])

end Place

def endsInSlash (path : String) : Bool :=
  path.toList.getLast? == some '/'

def content? (directory : Directory) (path : FilePath) : Option ByteArray :=
  directory.files.lookup path

def isDirectory (directory : Directory) (path : FilePath) : Bool :=
  path.isEmpty || directory.files.any fun (file, _) => path.isPrefixOf file && path != file

/-- Whether the way to `path` leads through a file. -/
def isBlocked (directory : Directory) (path : FilePath) : Bool :=
  directory.files.any fun (file, _) => file.isPrefixOf path && path != file

def readBytes (directory : Directory) (path : String) : Except FileError ByteArray :=
  match Place.ofPath path with
  | .elsewhere => .error .missing
  | .ancestor => .error .isADirectory
  | .inside place =>
      if directory.isDirectory place then .error .isADirectory
      else
        match directory.content? place with
        | some bytes => if endsInSlash path then .error .notADirectory else .ok bytes
        | none => .error (if directory.isBlocked place then .notADirectory else .missing)

def decode (bytes : ByteArray) : Except FileError String :=
  match String.fromUTF8? bytes with
  | some text => .ok text
  | none => .error .notText

def read (directory : Directory) (path : String) : Except FileError String :=
  directory.readBytes path >>= decode

def insert (directory : Directory) (path : FilePath) (bytes : ByteArray) : Directory :=
  ⟨(path, bytes) :: directory.files.filter fun (file, _) => file != path⟩

/-- Creates or replaces a file. The directory that is to hold it must exist. -/
def write (directory : Directory) (path text : String) : Except FileError Directory :=
  match Place.ofPath path with
  | .elsewhere => .error .missing
  | .ancestor => .error .isADirectory
  | .inside place =>
      if directory.isDirectory place then .error .isADirectory
      else if endsInSlash path then
        .error (if (directory.content? place).isSome then .notADirectory else .isADirectory)
      else if directory.isBlocked place then .error .notADirectory
      else if !directory.isDirectory place.dropLast then .error .missing
      else .ok (directory.insert place text.toUTF8)

end Directory

end SoftRules
