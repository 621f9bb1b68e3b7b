import ThriftRpc.Compile.Build

/-!
# Compiling programs

From syntax, a text or a file to a schema.
-/

namespace ThriftRpc.Compile

open Files (Path Tree)

structure Config where
  /-- Searched for included files before the working directory. -/
  includeDirectories : List Path := []
  /-- The language whose namespace the schema takes. -/
  language : String := "rs"

/-- Compiles parsed nodes. -/
def compile (config : Config) (library : Library) (root : Option Path) (nodes : List Idl.Node) :
    Except Fault Schema := do
  build config.language (← expand library root nodes)

/-- Reads a text whose faults are those of the file `path`. -/
def parseAs (path : Path) (text : String) : Except Fault (List Idl.Node) :=
  (Idl.parse text).mapError (.malformed path)

/-- Compiles a text that is no file. -/
def compileText (config : Config) (library : Library) (text : String) : Except Fault Schema := do
  compile config library none (← parseAs ⟨"<input>"⟩ text)

/-- Compiles a file. Every fault names the file in which it arose. -/
def compileFile (config : Config) (tree : Tree) (path : Path) : Except Fault Schema := do
  match tree.read path with
  | .error fault => throw (.inFile path (.io fault))
  | .ok (file, text) =>
    let nodes ← parseAs path text
    let search := (Search.ofDirectories tree config.includeDirectories).addDirectoryOf file
    (compile config (.searched search) (some file.path) nodes).mapError (·.within path)

end ThriftRpc.Compile
