import ThriftRpc.Idl.Syntax
import ThriftRpc.Json.Basic

/-!
# Syntax and schemas as JSON

The documents in which the nodes of a source text and the tables of a schema are printed.
-/

namespace ThriftRpc

open Json (ofOption)

/-- An object with a single member, named for the case of a type. -/
def Json.tagged (tag : String) (j : Json) : Json := .object [(tag, j)]

def Ty.toJson : Ty → Json
  | prim p => .tagged "Primitive" (.string p.text)
  | named name => .tagged "Named" (.string name)
  | list elem => .tagged "List" elem.toJson
  | set elem => .tagged "Set" elem.toJson
  | map key value => .tagged "Map" (.array [key.toJson, value.toJson])

namespace Const

mutual

def toJson : Const → Json
  | int n => .tagged "Int" (.int n.toInt)
  | double x => .tagged "Double" (.double x)
  | string s => .tagged "String" (.string s)
  | identifier name => .tagged "Identifier" (.string name)
  | list items => .tagged "List" (.array (itemsToJson items))
  | map entries => .tagged "Map" (.array (entriesToJson entries))
termination_by structural c => c

def itemsToJson : List Const → List Json
  | [] => []
  | c :: cs => c.toJson :: itemsToJson cs
termination_by structural cs => cs

def entriesToJson : List (Const × Const) → List Json
  | [] => []
  | (k, c) :: es => .array [k.toJson, c.toJson] :: entriesToJson es
termination_by structural es => es

end

end Const

def Requiredness.text : Requiredness → String
  | required => "required"
  | optional => "optional"

def StructKind.text : StructKind → String
  | struct => "struct"
  | union => "union"
  | exception => "exception"

def Json.requiredness (r : Option Requiredness) : Json := ofOption (.string ·.text) r

/-! ## Syntax -/

namespace Idl

def Field.toJson (f : Field) : Json :=
  .object [("index", ofOption (.int ·.toInt) f.index),
    ("requiredness", .requiredness f.requiredness), ("field_type", f.type.toJson),
    ("name", .string f.name), ("default", ofOption Const.toJson f.default)]

def Function.toJson (f : Function) : Json :=
  .object [("name", .string f.name), ("return_type", ofOption Ty.toJson f.returns),
    ("arguments", .array (f.arguments.map Field.toJson)),
    ("throws", .array (f.throws.map Field.toJson)), ("oneway", .bool f.oneway)]

def EnumMember.toJson (m : EnumMember) : Json :=
  .object [("name", .string m.name), ("value", ofOption (.int ·.toInt) m.value)]

/-- The name of the kind of a node, and its parts. -/
def Node.members : Node → String × List (String × Json)
  | comment text => ("comment", [("text", .string text)])
  | scope lang name => ("namespace", [("lang", ofOption .string lang), ("name", .string name)])
  | inclusion path => ("include", [("path", .string path)])
  | constant name type value =>
    ("const", [("name", .string name), ("const_type", type.toJson), ("value", value.toJson)])
  | typedef name target => ("typedef", [("name", .string name), ("target", target.toJson)])
  | enum name ms =>
    ("enum", [("name", .string name), ("members", .array (ms.map EnumMember.toJson))])
  | senum name values =>
    ("senum", [("name", .string name), ("values", .array (values.map .string))])
  | struct kind name fields =>
    ("struct", [("kind", .string kind.text), ("name", .string name),
      ("fields", .array (fields.map Field.toJson))])
  | exception name fields =>
    ("exception", [("name", .string name), ("fields", .array (fields.map Field.toJson))])
  | service name parent functions =>
    ("service", [("name", .string name), ("extends", ofOption .string parent),
      ("functions", .array (functions.map Function.toJson))])

def Node.toJson (n : Node) : Json :=
  let (kind, parts) := n.members
  .object (("node", .string kind) :: parts)

end Idl

/-! ## Schemas -/

def FieldDef.toJson (f : FieldDef) : Json :=
  .object [("index", .int f.index.toInt), ("name", .string f.name), ("type_ref", f.type.toJson),
    ("default", ofOption Const.toJson f.default), ("requiredness", .requiredness f.requiredness)]

def StructDef.toJson (d : StructDef) : Json :=
  .object [("name", .string d.name), ("kind", .string d.kind.text),
    ("fields", .object (d.fields.map fun f => (toString f.1.toInt, f.2.toJson)))]

def EnumDef.toJson (d : EnumDef) : Json :=
  .object [("name", .string d.name), ("members", .array (d.members.map .string))]

def ConstantDef.toJson (d : ConstantDef) : Json :=
  .object [("type_ref", d.type.toJson), ("value", d.value.toJson)]

def FunctionDef.toJson (f : FunctionDef) : Json :=
  .object [("name", .string f.name), ("return_type", ofOption Ty.toJson f.returns),
    ("arguments", .array (f.arguments.map FieldDef.toJson)),
    ("throws", .array (f.throws.map FieldDef.toJson)), ("oneway", .bool f.oneway)]

def ServiceDef.toJson (d : ServiceDef) : Json :=
  .object [("name", .string d.name), ("extends", ofOption .string d.parent),
    ("functions", .array (d.functions.map FunctionDef.toJson))]

/-- The definitions of a table under their names. -/
def Json.table {α : Type} (f : α → Json) (t : Table String α) : Json :=
  .object (t.map fun p => (p.1, f p.2))

def Schema.toJson (s : Schema) : Json :=
  .object [("namespace", .array (s.namespacePath.map .string)),
    ("structs", .table StructDef.toJson s.structs),
    ("exceptions", .table StructDef.toJson s.exceptions),
    ("enums", .table EnumDef.toJson s.enums), ("typedefs", .table Ty.toJson s.typedefs),
    ("constants", .table ConstantDef.toJson s.constants),
    ("services", .array (s.services.map ServiceDef.toJson))]

end ThriftRpc
