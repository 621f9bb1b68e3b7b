import ThriftRpc.Codec.Prepare
import ThriftRpc.Wire.Writer

/-!
# Writing values

`write` puts a prepared value on the wire. `encode` and `writeStruct` prepare first, so a value
that does not fit its type leaves no byte behind.
-/

namespace ThriftRpc.Codec

abbrev Writing (α : Type) := ExceptT Fault (StateM Wire.Output) α

instance : MonadLift Wire.Writer Writing := ⟨ExceptT.adapt Fault.wire⟩
instance : MonadLift (Except Fault) Writing := ⟨liftExcept⟩

open Wire (Writer)

/-- The count of a container, which must fit its header. -/
def containerSize (n : Nat) : Except Fault Int32 :=
  if n ≤ Writer.maxSize then .ok (.ofNat n)
  else .error (.mismatch "container of at most i32::MAX elements" (toString n))

def writePrimitive (ty : Ty) : Primitive → Value → Writing Unit
  | .bool, .bool b => Writer.bool b
  | .byte, .byte n => Writer.byte n
  | .i16, .i16 n => Writer.i16 n
  | .i32, .i32 n => Writer.i32 n
  | .i64, .i64 n => Writer.i64 n
  | .double, .double x => Writer.double x
  | .string, .string s => Writer.string s
  | .binary, .binary bytes => Writer.binary bytes
  | _, v => throw (.mismatch ty.text v.kind)

def writeEnum (ty : Ty) (d : EnumDef) : Value → Writing Unit
  | .enum _ member =>
    match d.codeOf? member with
    | some code => Writer.i32 code
    | none => throw (.mismatch d.name member)
  | .i32 n =>
    if n = Value.unknownCode then Writer.i32 n else throw (.mismatch ty.text (Value.i32 n).kind)
  | v => throw (.mismatch ty.text v.kind)

/-- Writes the declared fields that `field` writes, then the stop. -/
def writeFields (d : StructDef) (field : FieldDef → Writing Unit) : Writing Unit := do
  d.fields.forM fun f => field f.2
  Writer.fieldStop

mutual

def write (s : Schema) (ty : Ty) (v : Value) : Writing Unit := do
  match ← resolve s ty with
  | .prim p => writePrimitive ty p v
  | .enum d => writeEnum ty d v
  | .struct d =>
    match v with
    | .struct _ fields => writeFields d fun f => writeField s f fields
    | v => throw (.mismatch ty.text v.kind)
  | .list elem =>
    match v with
    | .list items => do
      Writer.listHeader ⟨← wireType s elem, ← containerSize items.length⟩
      writeItems s elem items
    | v => throw (.mismatch ty.text v.kind)
  | .set elem =>
    match v with
    | .set items => do
      Writer.listHeader ⟨← wireType s elem, ← containerSize items.length⟩
      writeItems s elem items
    | v => throw (.mismatch ty.text v.kind)
  | .map key value =>
    match v with
    | .map entries => do
      Writer.mapHeader ⟨← wireType s key, ← wireType s value, ← containerSize entries.length⟩
      writeEntries s key value entries
    | v => throw (.mismatch ty.text v.kind)
termination_by structural v

def writeItems (s : Schema) (elem : Ty) : List Value → Writing Unit
  | [] => return
  | v :: vs => do
    write s elem v
    writeItems s elem vs
termination_by structural vs => vs

def writeEntries (s : Schema) (key value : Ty) : List (Value × Value) → Writing Unit
  | [] => return
  | (k, v) :: es => do
    write s key k
    write s value v
    writeEntries s key value es
termination_by structural es => es

/-- Writes a field, if it is among the given ones. -/
def writeField (s : Schema) (f : FieldDef) : List (String × Value) → Writing Unit
  | [] => return
  | (name, v) :: fs =>
    if name = f.name then do
      Writer.fieldHeader ⟨← wireType s f.type, f.index⟩
      write s f.type v
    else writeField s f fs
termination_by structural fs => fs

end

/-- Writes a struct value that is prepared already. -/
def writePreparedStruct (s : Schema) (d : StructDef) : Value → Writing Unit
  | .struct _ fields => writeFields d fun f => writeField s f fields
  | v => throw (.mismatch d.name v.kind)

def encode (s : Schema) (ty : Ty) (v : Value) : Writing Unit := do
  let prepared ← prepare s ty v
  write s ty prepared

def writeStruct (s : Schema) (d : StructDef) (v : Value) : Writing Unit := do
  let prepared ← prepareStruct s d v
  writePreparedStruct s d prepared

end ThriftRpc.Codec
