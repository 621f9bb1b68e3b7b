import ThriftRpc.Cli

/-!
# Paths that a command looks at

A command runs on a snapshot of the file system. `Command.lookups` lists the paths that the
snapshot has to cover as far as the files in it tell; each file found there may include more.
-/

namespace ThriftRpc.Cli

open Files (Path Tree)
open Compile (Search)

/-- The paths that a text includes; none if it cannot be parsed. -/
def inclusions (text : String) : List Path :=
  ((Idl.parse text).toOption.getD []).filterMap fun
    | .inclusion path => some ⟨path⟩
    | _ => none

/-- The paths that the includes of all files of a tree may mean. -/
def includedPaths (tree : Tree) (directories : List Path) : List Path :=
  let start := Search.ofDirectories tree directories
  let search := tree.files.foldl (fun s f => s.addDirectoryOf f.1) start
  let paths := tree.files.flatMap fun f => (Text.Utf8.decode f.2).toOption.elim [] inclusions
  paths.flatMap search.candidates

def Command.lookups (tree : Tree) : Command → List Path
  | parse file => [file]
  | compile file config => file :: includedPaths tree config.includeDirectories

end ThriftRpc.Cli
