import ThriftRpc.Compile.Fault

/-!
# Libraries of files to include

Where the text of an included file comes from: a list of files, each under one path, or a file
tree that is searched through a list of directories. A relative path is tried in each directory
in turn; the directory of every file that was read is searched from then on.
-/

namespace ThriftRpc.Compile

open Files (Path Tree)

/-- The text of a file, and a path that tells the file from all others. -/
structure Source where
  path : Path
  text : String

/-- The directories of a file tree in which included files are looked for. -/
structure Search where
  tree : Tree
  directories : List Path := []

namespace Search

/-- Adds a directory at the end, unless it is listed; the empty path means the working
directory. -/
def addDirectory (s : Search) (d : Path) : Search :=
  let d := if d.text = "" then ⟨"."⟩ else d
  if s.directories.any (·.same d) then s else { s with directories := s.directories ++ [d] }

/-- Searches the given directories and then the working directory. -/
def ofDirectories (tree : Tree) (ds : List Path) : Search :=
  (ds ++ [(⟨"."⟩ : Path)]).foldl addDirectory ⟨tree, []⟩

/-- Where the file of an include may be. -/
def candidates (s : Search) (p : Path) : List Path :=
  if p.isAbsolute then [p] else s.directories.map (·.join p)

/-- The file that an include means. -/
def locate? (s : Search) (p : Path) : Option Path := (s.candidates p).find? s.tree.isFile

/-- Searches the directory that holds a file as well. -/
def addDirectoryOf (s : Search) (file : Files.Location) : Search :=
  s.addDirectory (Files.Location.path file.dropLast)

def read (s : Search) (path : String) : Except Fault (Source × Search) := do
  let some found := s.locate? ⟨path⟩ | throw (.includeNotFound path)
  match s.tree.read found with
  | .error fault => throw (.io fault)
  | .ok (file, text) => return (⟨file.path, text⟩, s.addDirectoryOf file)

end Search

inductive Library where
  | listed (files : List (Path × String))
  | searched (search : Search)

namespace Library

def read (l : Library) (path : String) : Except Fault (Source × Library) :=
  match l with
  | listed files =>
    match files.find? fun f => f.1.same ⟨path⟩ with
    | some f => .ok (⟨⟨path⟩, f.2⟩, l)
    | none => .error (.includeNotFound path)
  | searched search => (search.read path).map fun r => (r.1, searched r.2)

/-- No more files than this can be read under different paths. -/
def size : Library → Nat
  | listed files => files.length
  | searched search => search.tree.files.length

end Library

end ThriftRpc.Compile
