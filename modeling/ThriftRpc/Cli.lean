import ThriftRpc.Compile.Basic
import ThriftRpc.Json.Report

/-!
# The command line

Two commands print JSON: `parse FILE` the syntax of a file, `compile FILE` the schema that it and
its includes give. What a command line asks for is a `Command`; `run` answers it on a file tree.
-/

namespace ThriftRpc.Cli

open Files (Path Tree)

inductive Command where
  | parse (file : Path)
  | compile (file : Path) (config : Compile.Config)

/-! ## Reading a command line -/

/-- The options of `compile` and what each takes. -/
inductive OptionName where
  | includeDirectory
  | language

/-- One part of a command line behind the command. -/
inductive Word where
  | operand (s : String)
  /-- An option, with its value if that is part of the same word. -/
  | option (name : OptionName) (value : Option String)
  /-- The word after which every word is an operand. -/
  | terminator

/-- What follows a leading text. -/
def after? (start : String) (word : String) : Option String :=
  if start.toList.isPrefixOf word.toList then
    some (String.ofList (word.toList.drop start.length))
  else none

/-- The word begins like an option. A single dash does not. -/
def isDashed (word : String) : Bool :=
  match word.toList with
  | '-' :: _ :: _ => true
  | _ => false

/-- A long option is given whole, or with its value behind `=`. -/
def longOption? (name : String) (word : String) : Option (Option String) :=
  if word = name then some none else (after? (name ++ "=") word).map some

/-- A short option may have its value directly behind it, or behind `=`. -/
def shortOption? (name : String) (word : String) : Option (Option String) :=
  if word = name then some none
  else (after? (name ++ "=") word).map some <|> (after? name word).map some

/-- The kind of a word; none if it is an unknown option. -/
def wordOf? (word : String) : Option Word :=
  if word = "--" then some .terminator
  else if !isDashed word then some (.operand word)
  else (longOption? "--include-dir" word).map (.option .includeDirectory)
    <|> (longOption? "--lang" word).map (.option .language)
    <|> (shortOption? "-I" word).map (.option .includeDirectory)

/-- The arguments of a command so far. -/
structure Arguments where
  file : Option Path := none
  includeDirectories : List Path := []
  language : Option String := none

/-- A path is not empty. -/
def path? (s : String) : Option Path := if s = "" then none else some ⟨s⟩

namespace Arguments

/-- There is one operand, the file. -/
def addOperand (a : Arguments) (s : String) : Option Arguments :=
  match a.file with
  | some _ => none
  | none => (path? s).map fun p => { a with file := some p }

/-- Directories may be given again and again, the language once. -/
def addOption (a : Arguments) (name : OptionName) (value : String) : Option Arguments :=
  match name, a.language with
  | .includeDirectory, _ =>
    (path? value).map fun p => { a with includeDirectories := a.includeDirectories ++ [p] }
  | .language, none => some { a with language := some value }
  | .language, some _ => none

end Arguments

/-- Reads the words behind a command. An option without a value takes the next word, unless that
begins like an option. -/
def arguments? (options : Bool) (a : Arguments) : List String → Option Arguments
  | [] => some a
  | word :: words =>
    match wordOf? word, words with
    | none, _ => none
    | some .terminator, words => words.foldlM Arguments.addOperand a
    | some (.operand s), words => (a.addOperand s).bind (arguments? options · words)
    | some (.option name (some value)), words =>
      if options then (a.addOption name value).bind (arguments? options · words) else none
    | some (.option name none), value :: words =>
      if options ∧ isDashed value = false then
        (a.addOption name value).bind (arguments? options · words)
      else none
    | some (.option _ none), [] => none

def command? : List String → Option Command
  | "parse" :: words => do
    let a ← arguments? false {} words
    return .parse (← a.file)
  | "compile" :: words => do
    let a ← arguments? true {} words
    let config : Compile.Config := { includeDirectories := a.includeDirectories }
    return .compile (← a.file) { config with language := a.language.getD config.language }
  | _ => none

/-! ## Running a command -/

/-- Exit code, standard output and the line of complaint. -/
structure Outcome where
  code : Nat
  output : String := ""
  complaint : String := ""

def usage : String := "usage: parse FILE | compile [-I DIR]... [--lang NAME] FILE\n"

def parseFile (tree : Tree) (file : Path) : Except Compile.Fault (List Idl.Node) := do
  match tree.read file with
  | .error fault => throw (.inFile file (.io fault))
  | .ok (_, text) => Compile.parseAs file text

def Command.document (tree : Tree) : Command → Except Compile.Fault Json
  | parse file => do return .array ((← parseFile tree file).map Idl.Node.toJson)
  | compile file config => do return (← Compile.compileFile config tree file).toJson

/-- A command line that cannot be read ends with code 2, a fault with code 1. -/
def run (tree : Tree) (args : List String) : Outcome :=
  match command? args with
  | none => { code := 2, complaint := usage }
  | some command =>
    match command.document tree with
    | .error fault => { code := 1, complaint := fault.message ++ "\n" }
    | .ok document => { code := 0, output := document.pretty ++ "\n" }

end ThriftRpc.Cli
