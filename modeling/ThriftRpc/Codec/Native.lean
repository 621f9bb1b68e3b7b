import ThriftRpc.Codec.Fault
import ThriftRpc.Value.Basic

/-!
# Native types

Types of the host program that values convert to and from, without coercion: a value of another
kind is a mismatch. A list is taken from a list or a set.
-/

namespace ThriftRpc.Codec

class Native (α : Type) where
  ofValue : Value → Except Fault α
  toValue : α → Value

namespace Native

instance : Native Bool where
  ofValue
    | .bool b => .ok b
    | v => .error (.mismatch "bool" v.kind)
  toValue := .bool

instance : Native Int8 where
  ofValue
    | .byte n => .ok n
    | v => .error (.mismatch "byte" v.kind)
  toValue := .byte

instance : Native Int16 where
  ofValue
    | .i16 n => .ok n
    | v => .error (.mismatch "i16" v.kind)
  toValue := .i16

instance : Native Int32 where
  ofValue
    | .i32 n => .ok n
    | v => .error (.mismatch "i32" v.kind)
  toValue := .i32

instance : Native Int64 where
  ofValue
    | .i64 n => .ok n
    | v => .error (.mismatch "i64" v.kind)
  toValue := .i64

instance : Native Double where
  ofValue
    | .double x => .ok x
    | v => .error (.mismatch "double" v.kind)
  toValue := .double

instance : Native String where
  ofValue
    | .string s => .ok s
    | v => .error (.mismatch "string" v.kind)
  toValue := .string

instance : Native (List UInt8) where
  ofValue
    | .binary bytes => .ok bytes
    | v => .error (.mismatch "binary" v.kind)
  toValue := .binary

instance {α : Type} [Native α] : Native (List α) where
  ofValue
    | .list items | .set items => items.mapM ofValue
    | v => .error (.mismatch "list" v.kind)
  toValue items := .list (items.map toValue)

variable {α : Type} [Native α]

/-- A field of a struct that must be present. -/
def field (v : Value) (name : String) : Except Fault α :=
  match v.get? name with
  | some w => ofValue w
  | none => .error (.missingField name)

/-- A field of a struct that may be absent. -/
def field? (v : Value) (name : String) : Except Fault (Option α) :=
  match v.get? name with
  | some w => some <$> ofValue w
  | none => .ok none

end Native

end ThriftRpc.Codec
