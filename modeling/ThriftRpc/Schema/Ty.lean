/-!
# Types

The types of the interface language as they are written: base types, names, and containers.
-/

namespace ThriftRpc

inductive Primitive where
  | bool
  | byte
  | i16
  | i32
  | i64
  | double
  | string
  | binary
  deriving DecidableEq, Repr

namespace Primitive

/-- The base type a keyword names; `i8` and `slist` are second names. -/
def ofKeyword? : String → Option Primitive
  | "bool" => some .bool
  | "byte" | "i8" => some .byte
  | "i16" => some .i16
  | "i32" => some .i32
  | "i64" => some .i64
  | "double" => some .double
  | "string" | "slist" => some .string
  | "binary" => some .binary
  | _ => none

def text : Primitive → String
  | bool => "bool"
  | byte => "byte"
  | i16 => "i16"
  | i32 => "i32"
  | i64 => "i64"
  | double => "double"
  | string => "string"
  | binary => "binary"

theorem ofKeyword?_text (p : Primitive) : ofKeyword? p.text = some p := by
  cases p <;> rfl

end Primitive

/-- A type as written. A name is looked up in a schema when the type is used. -/
inductive Ty where
  | prim (p : Primitive)
  | named (name : String)
  | list (elem : Ty)
  | set (elem : Ty)
  | map (key value : Ty)
  deriving DecidableEq, Repr

def Ty.text : Ty → String
  | prim p => p.text
  | named name => name
  | list elem => "list<" ++ elem.text ++ ">"
  | set elem => "set<" ++ elem.text ++ ">"
  | map key value => "map<" ++ key.text ++ "," ++ value.text ++ ">"

end ThriftRpc
