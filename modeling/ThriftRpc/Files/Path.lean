import ThriftRpc.Text.Segments

/-!
# Paths

A path keeps the text it was written with. Two paths are the same if their components are:
repeated and trailing slashes do not count, nor does a `.` that is not the first component.
-/

namespace ThriftRpc.Files

inductive Component where
  | root
  | here
  | up
  | name (s : String)
  deriving DecidableEq, Repr

structure Path where
  text : String
  deriving DecidableEq, Repr

namespace Path

/-- The pieces of the text between slashes. -/
def pieces (p : Path) : List String := (Text.split '/' p.text.toList).map String.ofList

def isAbsolute (p : Path) : Bool := p.text.toList.head? == some '/'

/-- The component of a piece that is not the first. -/
def Component.ofPiece? : String → Option Component
  | "" | "." => none
  | ".." => some .up
  | s => some (.name s)

def components (p : Path) : List Component :=
  let rest := p.pieces.filterMap Component.ofPiece?
  if p.isAbsolute then .root :: rest
  else if p.pieces.head? == some "." then .here :: rest
  else rest

def same (p q : Path) : Bool := p.components == q.components

/-- The path `q` as seen from the directory `p`. -/
def join (p q : Path) : Path :=
  if q.isAbsolute then q
  else if p.text = "" ∨ p.text.toList.getLast? = some '/' then ⟨p.text ++ q.text⟩
  else ⟨p.text ++ "/" ++ q.text⟩

example : same ⟨"d//./a/"⟩ ⟨"d/a"⟩ = true := by decide +kernel
example : same ⟨"./a"⟩ ⟨"a"⟩ = false := by decide +kernel

end Path

end ThriftRpc.Files
