import ThriftRpc.Files.Path
import ThriftRpc.Table
import ThriftRpc.Text.Utf8

/-!
# File trees

A snapshot of files and directories without links, and a working directory in it. Paths are
followed piece by piece: everything passed through has to be a directory.
-/

namespace ThriftRpc.Files

inductive Fault where
  | missing
  | notDirectory
  | isDirectory
  | notText
  | tooLong
  | nulInPath
  deriving DecidableEq, Repr

def Fault.message : Fault → String
  | missing => "No such file or directory (os error 2)"
  | notDirectory => "Not a directory (os error 20)"
  | isDirectory => "Is a directory (os error 21)"
  | notText => "stream did not contain valid UTF-8"
  | tooLong => "File name too long (os error 36)"
  | nulInPath => "file name contained an unexpected NUL byte"

/-- The most bytes of a name in a directory. -/
def maxName : Nat := 255

/-- The most bytes of a path. -/
def maxPath : Nat := 4095

/-- The names from the root down to a file or directory. -/
abbrev Location := List String

structure Tree where
  files : Table Location (List UInt8) := []
  /-- Directories that need not hold a file. -/
  directories : List Location := []
  working : Location := []

namespace Tree

inductive Entry where
  | file (bytes : List UInt8)
  | directory

/-- What is at a location. Whatever lies on the way to a file or directory is a directory. -/
def entry? (t : Tree) (l : Location) : Option Entry :=
  match t.files.find? l with
  | some bytes => some (.file bytes)
  | none =>
    let isAbove := fun below : Location => l.isPrefixOf below
    if l = [] ∨ t.directories.any isAbove ∨ t.files.any (isAbove ·.1) then some .directory else none

/-- Follows one piece of a path. -/
def step (t : Tree) (l : Location) (piece : String) : Except Fault Location :=
  match t.entry? l with
  | some (.file _) => .error .notDirectory
  | none => .error .missing
  | some .directory =>
    if piece = "" ∨ piece = "." then .ok l
    else if piece = ".." then .ok l.dropLast
    else if maxName < piece.utf8ByteSize then .error .tooLong
    else if (t.entry? (l ++ [piece])).isSome then .ok (l ++ [piece])
    else .error .missing

/-- Where a path leads. The path as a whole is judged before any piece of it is followed. -/
def locate (t : Tree) (p : Path) : Except Fault Location :=
  if p.text.toList.contains '\x00' then .error .nulInPath
  else if maxPath < p.text.utf8ByteSize then .error .tooLong
  else if p.text = "" then .error .missing
  else p.pieces.foldlM t.step (if p.isAbsolute then [] else t.working)

def isFile (t : Tree) (p : Path) : Bool :=
  match (t.locate p).toOption.bind t.entry? with
  | some (.file _) => true
  | _ => false

/-- The text of a file, and where it is. -/
def read (t : Tree) (p : Path) : Except Fault (Location × String) := do
  let l ← t.locate p
  match t.entry? l with
  | some (.file bytes) =>
    match Text.Utf8.decode bytes with
    | .ok text => return (l, text)
    | .error _ => throw .notText
  | some .directory => throw .isDirectory
  | none => throw .missing

end Tree

/-- The one path without detours that leads to a location. -/
def Location.path (l : Location) : Path := ⟨"/" ++ "/".intercalate l⟩

end ThriftRpc.Files
