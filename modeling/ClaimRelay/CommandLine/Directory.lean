import ClaimRelay.CommandLine.Run

/-!
# A directory as a host

A current directory that stands in the root, both with files and neither with other directories, a standard
input to be read, and what has been put on the standard output and the standard error. A path is followed
name by name, and every name but the last has to be that of a directory.
-/

namespace ClaimRelay.CommandLine

/-- The two directories there are. The root is its own parent, and no path names the current one. -/
inductive Area
  | root
  | current
  deriving DecidableEq

structure Directory where
  files : List (String × List UInt8) := []
  /-- The files of the root. -/
  above : List (String × List UInt8) := []
  input : List UInt8 := []
  output : List UInt8 := []
  errors : List String := []

namespace Directory

def noSuchFile : String := "No such file or directory (os error 2)"

def notADirectory : String := "Not a directory (os error 20)"

def isADirectory : String := "Is a directory (os error 21)"

def nameTooLong : String := "File name too long (os error 36)"

def nameLimit : Nat := 255

def pathLimit : Nat := 4095

def filesIn (d : Directory) : Area → List (String × List UInt8)
  | .root => d.above
  | .current => d.files

def file? (d : Directory) (area : Area) (name : String) : Except String (Option (List UInt8)) :=
  if nameLimit < name.utf8ByteSize then throw nameTooLong else pure ((d.filesIn area).lookup name)

def descend (d : Directory) : Area → List String → Except String Area
  | area, [] => pure area
  | area, name :: rest =>
    if name = "." then d.descend area rest
    else if name = ".." then d.descend .root rest
    else do throw (if (← d.file? area name).isSome then notADirectory else noSuchFile)

inductive Target
  | directory
  /-- A place for a file of this name; a path that ends in a slash asks for a directory there. -/
  | entry (area : Area) (name : String) (asDirectory : Bool)
  deriving DecidableEq

def target (d : Directory) (path : String) : Except String Target := do
  if path = "" then throw noSuchFile
  if pathLimit < path.utf8ByteSize then throw nameTooLong
  let start := if path.startsWith "/" then Area.root else .current
  let names := (path.splitOn "/").filter (· ≠ "")
  match names.getLast? with
  | none => return .directory
  | some last =>
    let area ← d.descend start names.dropLast
    return if last = "." ∨ last = ".." then .directory else .entry area last (path.endsWith "/")

def read (d : Directory) (path : String) : Except String (List UInt8) := do
  match ← d.target path with
  | .directory => throw isADirectory
  | .entry area name asDirectory =>
    match ← d.file? area name with
    | none => throw noSuchFile
    | some bytes => if asDirectory then throw notADirectory else return bytes

def put (d : Directory) (area : Area) (name : String) (bytes : List UInt8) : Directory :=
  let files := (name, bytes) :: (d.filesIn area).filter (·.1 ≠ name)
  match area with
  | .root => { d with above := files }
  | .current => { d with files }

/-- A file is put where none is; no directory is, whatever is there. -/
def write (d : Directory) (path : String) (bytes : List UInt8) : Except String Directory := do
  match ← d.target path with
  | .directory => throw isADirectory
  | .entry area name asDirectory =>
    if asDirectory then throw isADirectory
    let _ ← d.file? area name
    return d.put area name bytes

def host : Host (StateM Directory) where
  read
    | .standard => modifyGet fun d => (.ok d.input, { d with input := [] })
    | .file path => return (← get).read path
  write
    | .standard, bytes => modifyGet fun d => (.ok (), { d with output := d.output ++ bytes })
    | .file path, bytes => modifyGet fun d =>
      match d.write path bytes with
      | .ok d => (.ok (), d)
      | .error report => (.error report, d)
  complain line := modify fun d => { d with errors := d.errors ++ [line] }

end Directory

end ClaimRelay.CommandLine
