import ThriftRpc.Codec.Fault
import ThriftRpc.Schema.Basic
import ThriftRpc.Wire.Kind

/-!
# Shapes

What a type comes down to in a schema: `resolve` looks a name up and follows aliases, at most 32
of them, so that a cycle of aliases is a fault. A definition is preferred to an alias of the same
name. Names inside a container stay as they are.
-/

namespace ThriftRpc

inductive Shape where
  | prim (p : Primitive)
  | enum (d : EnumDef)
  | struct (d : StructDef)
  | list (elem : Ty)
  | set (elem : Ty)
  | map (key value : Ty)

def Primitive.wireType : Primitive → WireType
  | bool => .bool
  | byte => .byte
  | i16 => .i16
  | i32 => .i32
  | i64 => .i64
  | double => .double
  | string | binary => .string

def Shape.wireType : Shape → WireType
  | prim p => p.wireType
  | enum _ => .i32
  | struct _ => .struct
  | list _ => .list
  | set _ => .set
  | map _ _ => .map

namespace Codec

/-- The most aliases followed from one type. -/
def aliasLimit : Nat := 32

def resolveWithin (s : Schema) (hops : Nat) (ty : Ty) : Except Fault Shape :=
  match ty with
  | .prim p => .ok (.prim p)
  | .list elem => .ok (.list elem)
  | .set elem => .ok (.set elem)
  | .map key value => .ok (.map key value)
  | .named name =>
    match s.lookup name with
    | some (.struct d) | some (.exception d) => .ok (.struct d)
    | some (.enum d) => .ok (.enum d)
    | none =>
      match hops, s.typedefs.find? name with
      | hops + 1, some target => resolveWithin s hops target
      | _, _ => .error (.unknownType name)

def resolve (s : Schema) (ty : Ty) : Except Fault Shape := resolveWithin s aliasLimit ty

def wireType (s : Schema) (ty : Ty) : Except Fault WireType := Shape.wireType <$> resolve s ty

/-- Elements may be read as the expected type when the wire types agree or when one of them is a
text, in which case each element is coerced. -/
def compatible (expected actual : WireType) : Bool :=
  expected == actual || expected == .string || actual == .string

end Codec

end ThriftRpc
