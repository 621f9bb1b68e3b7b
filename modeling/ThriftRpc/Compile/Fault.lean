import ThriftRpc.Files.Tree
import ThriftRpc.Idl.ParseError

/-!
# Compile errors

Why a program gives no schema, with the file in which the cause lies where it is known.
-/

namespace ThriftRpc.Compile

open Files (Path)

inductive Fault where
  | io (fault : Files.Fault)
  | malformed (path : Path) (error : Idl.ParseError)
  | unknownType (name : String)
  | includeNotFound (path : String)
  /-- The files being expanded, outermost first, and the one that is met again. -/
  | includeCycle (chain : List Path)
  | duplicateType (name : String)
  | duplicateIndex (owner : String) (index : Int)
  | duplicateName (owner field : String)
  | indexRange (owner field : String) (index : Int)
  | inFile (path : Path) (cause : Fault)

namespace Fault

def message : Fault → String
  | io fault => s!"I/O error: {fault.message}"
  | malformed path error => s!"{path.text}: {error.message}"
  | unknownType name => s!"Unknown type <{name}>"
  | includeNotFound path => s!"Include not found: {path}"
  | includeCycle chain => "Include cycle: " ++ " -> ".intercalate (chain.map Path.text)
  | duplicateType name => s!"The type {name} is defined twice"
  | duplicateIndex owner index => s!"The index {index} is used twice in {owner}"
  | duplicateName owner field => s!"The field {field} is defined twice in {owner}"
  | indexRange owner field index =>
    s!"The index of field {field} in {owner} does not fit in i16: {index}"
  | inFile path cause => s!"In {path.text}: {cause.message}"

/-- Names the file, unless a file is named already. -/
def within (path : Path) : Fault → Fault
  | malformed p e => malformed p e
  | inFile p c => inFile p c
  | f => inFile path f

/-- The cause without the files around it. -/
def root : Fault → Fault
  | inFile _ cause => cause.root
  | f => f

end Fault

end ThriftRpc.Compile
