import ThriftRpc.Compile.Expand
import ThriftRpc.Text.Segments

/-!
# Building schemas

Definitions enter a schema one after the other. A name refers only to what came before it, and to
the struct that is being defined. Aliases are replaced by their targets, so a finished schema
refers to definitions only.
-/

namespace ThriftRpc.Compile

open Idl (Node Field Function)

/-! ## Fields -/

/-- The index of a field: the written one, or else its place in the list, from 1. -/
def wantedIndex (position : Nat) (f : Field) : Int :=
  match f.index with
  | some n => n.toInt
  | none => position + 1

/-- The indices of fields that follow the ones in `taken`, the first of them at `position`. -/
def assignIndices (owner : String) (taken : List (Int × String)) (position : Nat) :
    List Field → Except Fault (List (Int16 × Field))
  | [] => .ok []
  | f :: fs => do
    let index := wantedIndex position f
    if index < -0x8000 ∨ 0x7FFF < index then throw (.indexRange owner f.name index)
    if index ∈ taken.map Prod.fst then throw (.duplicateIndex owner index)
    if f.name ∈ taken.map Prod.snd then throw (.duplicateName owner f.name)
    let rest ← assignIndices owner ((index, f.name) :: taken) (position + 1) fs
    return (.ofInt index, f) :: rest

/-! ## Names -/

/-- The type a name stands for: the target of an alias, or a definition of that name. -/
def lookupName? (s : Schema) (name : String) : Option Ty :=
  s.typedefs.find? name <|> (s.lookup name).map fun _ => .named name

/-- A name that is not known whole may be known without what precedes its last dot. -/
def resolveName (s : Schema) (name : String) : Except Fault Ty :=
  let short := if name.toList.contains '.' then lookupName? s (Text.lastSegment name) else none
  match lookupName? s name <|> short with
  | some t => .ok t
  | none => .error (.unknownType name)

def resolveType (s : Schema) : Ty → Except Fault Ty
  | .prim p => .ok (.prim p)
  | .named name => resolveName s name
  | .list elem => .list <$> resolveType s elem
  | .set elem => .set <$> resolveType s elem
  | .map key value => do
    let key ← resolveType s key
    return .map key (← resolveType s value)

/-! ## Definitions -/

def fieldDefs (s : Schema) (owner : String) (fields : List Field) :
    Except Fault (List FieldDef) := do
  let indexed ← assignIndices owner [] 0 fields
  indexed.mapM fun (index, f) => do
    let type ← resolveType s f.type
    return { index, name := f.name, type, default := f.default, requiredness := f.requiredness }

def functionDef (s : Schema) (service : String) (f : Function) : Except Fault FunctionDef := do
  let owner := service ++ "." ++ f.name
  let returns ← f.returns.mapM (resolveType s)
  let arguments ← fieldDefs s owner f.arguments
  let throws ← fieldDefs s (owner ++ " throws") f.throws
  return { name := f.name, returns, arguments, throws, oneway := f.oneway }

/-- Enters a node into a schema. Of the namespaces, those of `language` and those of all languages
count, and the last of them holds. -/
def addNode (language : String) (s : Schema) : Node → Except Fault Schema
  | .comment _ | .inclusion _ => .ok s
  | .scope lang name =>
    if lang.all (· = language) then .ok { s with namespacePath := Text.nameSegments name }
    else .ok s
  | .constant name type value => do
    let type ← resolveType s type
    return { s with constants := s.constants.insert name ⟨type, value⟩ }
  | .typedef name target => do
    let target ← resolveType s target
    return { s with typedefs := s.typedefs.insert name target }
  | .enum name members =>
    .ok { s with enums := s.enums.insert name ⟨name, members.map (·.name)⟩ }
  | .senum name _ => .ok { s with typedefs := s.typedefs.insert name (.prim .string) }
  | .struct kind name fields => do
    let begun := { s with structs := s.structs.insert name (.ofFields name kind []) }
    let fields ← fieldDefs begun name fields
    return { s with structs := s.structs.insert name (.ofFields name kind fields) }
  | .exception name fields => do
    let begun := { s with exceptions := s.exceptions.insert name (.ofFields name .exception []) }
    let fields ← fieldDefs begun name fields
    return { s with exceptions := s.exceptions.insert name (.ofFields name .exception fields) }
  | .service name parent functions => do
    let functions ← functions.mapM (functionDef s name)
    return { s with services := s.services ++ [⟨name, parent, functions⟩] }

/-- No two of the names are equal; the fault names the first that came before. -/
def checkDistinct (seen : List String) : List String → Except Fault Unit
  | [] => .ok ()
  | name :: names =>
    if name ∈ seen then .error (.duplicateType name) else checkDistinct (name :: seen) names

/-- The schema of a program with its includes expanded. -/
def build (language : String) (nodes : List Located) : Except Fault Schema := do
  checkDistinct [] (nodes.filterMap (·.node.definedName?))
  nodes.foldlM (fun s n =>
    (addNode language s n.node).mapError fun f =>
      match n.origin with
      | some path => f.within path
      | none => f) {}

end ThriftRpc.Compile
