import ThriftRpc.Compile.Library
import ThriftRpc.Idl.Parser.Definition

/-!
# Include expansion

Every include is replaced by the nodes of its file, depth first, the first time the file is met,
and by nothing afterwards. A file that is met during its own expansion is a cycle.
-/

namespace ThriftRpc.Compile

open Files (Path)
open Idl (Node)

/-- A node, and the included file it comes from. -/
structure Located where
  origin : Option Path
  node : Node

structure Expansion where
  library : Library
  /-- The files expanded or being expanded. -/
  met : List Path

abbrev Expanding (α : Type) := StateT Expansion (Except Fault) α

namespace Expanding

def read (path : String) : Expanding Source := do
  let st ← get
  let (source, library) ← st.library.read path
  set { st with library }
  return source

def parse (source : Source) : Expanding (List Node) :=
  match Idl.parse source.text with
  | .ok nodes => return nodes
  | .error e => throw (.malformed source.path e)

/-- Runs an expansion whose faults arise in the given file. -/
def inFile {α : Type} (path : Path) (run : Expanding α) : Expanding α := fun st =>
  (run st).mapError (·.within path)

/-- Expands an include met while the files of `stack` are being expanded, outermost first. -/
def included (expand : Option Path → List Path → List Node → Expanding (List Located))
    (stack : List Path) (path : String) : Expanding (List Located) := do
  let source ← read path
  if stack.any (·.same source.path) then throw (.includeCycle (stack ++ [source.path]))
  let st ← get
  if st.met.any (·.same source.path) then return []
  set { st with met := source.path :: st.met }
  let nodes ← parse source
  inFile source.path (expand (some source.path) (stack ++ [source.path]) nodes)

/-- Expands the nodes of a file. Each level of includes meets another file, so the number of
files bounds the depth. -/
def nodesWithin (depth : Nat) (origin : Option Path) (stack : List Path) (nodes : List Node) :
    Expanding (List Located) :=
  match depth with
  | 0 => throw (.includeCycle stack)
  | depth + 1 => do
    let parts ← nodes.mapM fun node =>
      match node with
      | .inclusion path => included (nodesWithin depth) stack path
      | node => return [⟨origin, node⟩]
    return parts.flatten

end Expanding

/-- The nodes of a program with all includes expanded. `root` is the path of the program itself,
if it is a file. -/
def expand (library : Library) (root : Option Path) (nodes : List Node) :
    Except Fault (List Located) := do
  let start : Expansion := ⟨library, root.toList⟩
  let (nodes, _) ← (Expanding.nodesWithin (library.size + 1) none root.toList nodes).run start
  return nodes

end ThriftRpc.Compile
