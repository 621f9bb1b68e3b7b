import ThriftRpc.Cli.Lookup

/-!
# The program

Takes a snapshot of the files that the command line asks for, runs the command on it, and prints
the outcome.
-/

namespace ThriftRpc.Cli

open Files (Location Path Tree)

def locationOf (path : String) : Location := (Path.pieces ⟨path⟩).filter (· ≠ "")

/-- Adds the file or directory that a path leads to, if there is one. -/
def add (tree : Tree) (path : String) : IO Tree := do
  try
    let found ← IO.FS.realPath path
    let location := locationOf found.toString
    if ← found.isDir then return { tree with directories := location :: tree.directories }
    let bytes ← IO.FS.readBinFile found
    return { tree with files := tree.files.insert location bytes.toList }
  catch _ => return tree

/-- Adds what a path leads to, and every directory on the way. -/
def addAlong (tree : Tree) (path : Path) : IO Tree := do
  let lengths := (List.range path.pieces.length).map (· + 1)
  (lengths.map fun n => "/".intercalate (path.pieces.take n)).foldlM add tree

/-- Adds everything that a command looks at, apart from the paths `seen`. -/
partial def collect (command : Command) (seen : List Path) (tree : Tree) : IO Tree := do
  match (command.lookups tree).filter (· ∉ seen) with
  | [] => return tree
  | fresh => collect command (seen ++ fresh) (← fresh.foldlM addAlong tree)

def snapshot (command : Command) : IO Tree := do
  let working ← IO.FS.realPath (← IO.currentDir)
  collect command [] { working := locationOf working.toString }

def execute (args : List String) : IO UInt32 := do
  let tree ← (command? args).elim (pure {}) snapshot
  let outcome := run tree args
  IO.print outcome.output
  IO.eprint outcome.complaint
  return .ofNat outcome.code

end ThriftRpc.Cli

def main (args : List String) : IO UInt32 := ThriftRpc.Cli.execute args
