import ThriftRpc.Double.Basic
import ThriftRpc.Schema.Ty
import ThriftRpc.Table

/-!
# Schemas

What an interface definition declares, with every table in order of declaration: structs,
exceptions, enums, type aliases, constants and services, and the lookups that codec and calls
need. Arguments and results of a function travel as structs of their own (`argsStruct`,
`resultStruct`).
-/

namespace ThriftRpc

/-- A constant as written. -/
inductive Const where
  | int (n : Int64)
  | double (x : Double)
  | string (s : String)
  | identifier (name : String)
  | list (items : List Const)
  | map (entries : List (Const × Const))

inductive Requiredness where
  | required
  | optional
  deriving DecidableEq, Repr

structure FieldDef where
  index : Int16
  name : String
  type : Ty
  default : Option Const := none
  requiredness : Option Requiredness := none

inductive StructKind where
  | struct
  | union
  | exception
  deriving DecidableEq, Repr

structure StructDef where
  name : String
  kind : StructKind
  fields : Table Int16 FieldDef

namespace StructDef

/-- Keys each field by its index; of two with one index the later takes the place of the
earlier. -/
def ofFields (name : String) (kind : StructKind) (fields : List FieldDef) : StructDef :=
  ⟨name, kind, Table.ofList (fields.map fun f => (f.index, f))⟩

def field? (d : StructDef) (index : Int16) : Option FieldDef := d.fields.find? index

def fieldNamed? (d : StructDef) (name : String) : Option FieldDef :=
  (d.fields.map Prod.snd).find? fun f => f.name = name

end StructDef

/-- An enum. A member's code is its place in the list, from 0. -/
structure EnumDef where
  name : String
  members : List String

namespace EnumDef

def codeOf? (d : EnumDef) (member : String) : Option Int32 :=
  (d.members.idxOf? member).map Int32.ofNat

def memberOf? (d : EnumDef) (code : Int32) : Option String :=
  if code < 0 then none else d.members[code.toInt.toNat]?

end EnumDef

structure FunctionDef where
  name : String
  returns : Option Ty
  arguments : List FieldDef
  throws : List FieldDef
  oneway : Bool

namespace FunctionDef

/-- The struct that carries the arguments of a call. -/
def argsStruct (f : FunctionDef) : StructDef :=
  .ofFields (f.name ++ "_args") .struct f.arguments

/-- The struct that carries a reply: the result at index 0, each declared exception at its own. -/
def resultStruct (f : FunctionDef) : StructDef :=
  let success := f.returns.map fun t => { index := 0, name := "success", type := t : FieldDef }
  .ofFields (f.name ++ "_result") .struct (success.toList ++ f.throws)

/-- The field of the reply that carries the exception type `name`. -/
def throwsFieldFor? (f : FunctionDef) (name : String) : Option FieldDef :=
  f.throws.find? fun d => d.type = .named name

end FunctionDef

structure ServiceDef where
  name : String
  parent : Option String
  functions : List FunctionDef

def ServiceDef.function? (d : ServiceDef) (name : String) : Option FunctionDef :=
  d.functions.find? fun f => f.name = name

structure ConstantDef where
  type : Ty
  value : Const

structure Schema where
  namespacePath : List String := []
  structs : Table String StructDef := []
  exceptions : Table String StructDef := []
  enums : Table String EnumDef := []
  typedefs : Table String Ty := []
  constants : Table String ConstantDef := []
  services : List ServiceDef := []

/-- What a name can stand for as a type of its own. -/
inductive Definition where
  | struct (d : StructDef)
  | exception (d : StructDef)
  | enum (d : EnumDef)

namespace Schema

/-- A struct before an exception before an enum of the same name. -/
def lookup (s : Schema) (name : String) : Option Definition :=
  (s.structs.find? name).map .struct
    <|> (s.exceptions.find? name).map .exception
    <|> (s.enums.find? name).map .enum

def structLike? (s : Schema) (name : String) : Option StructDef :=
  s.structs.find? name <|> s.exceptions.find? name

def service? (s : Schema) (name : String) : Option ServiceDef :=
  s.services.find? fun d => d.name = name

def isDefined (s : Schema) (name : String) : Bool :=
  (s.lookup name).isSome || s.typedefs.contains name

/-- The path of a name inside the namespace of the schema. -/
def qualifiedName (s : Schema) (name : String) : String :=
  "::".intercalate (s.namespacePath ++ [name])

end Schema

end ThriftRpc
