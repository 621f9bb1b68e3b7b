import ThriftRpc.Codec.Coercion
import ThriftRpc.Wire.Skip

/-!
# Reading values

`decode` reads what the wire announces into a type. Where the wire type differs, texts and
scalars are coerced into each other, and all else is consumed and absent. Structs and containers
may nest 64 deep.
-/

namespace ThriftRpc.Codec

abbrev Reading (α : Type) := ExceptT Fault (StateM (List UInt8)) α

instance : MonadLift Wire.Reader Reading := ⟨ExceptT.adapt Fault.wire⟩
instance : MonadLift (Except Fault) Reading := ⟨liftExcept⟩

open Wire (Reader FieldHeader)

/-- Reads a value of some type that the wire announces as another. -/
abbrev ValueReader := Ty → WireType → Reading (Option Value)

/-- Reads a scalar as its text; skips anything else. -/
def readAsText : WireType → Reader (Option String)
  | .bool => return some (Value.boolText (← Reader.bool))
  | .byte => return some (toString (← Reader.byte).toInt)
  | .i16 => return some (toString (← Reader.i16).toInt)
  | .i32 => return some (toString (← Reader.i32).toInt)
  | .i64 => return some (toString (← Reader.i64).toInt)
  | .double => return some ((← Reader.double).render Value.numberLayout)
  | w => do
    Reader.skip w
    return none

def readPrimitive : Primitive → Reader Value
  | .bool => .bool <$> Reader.bool
  | .byte => .byte <$> Reader.byte
  | .i16 => .i16 <$> Reader.i16
  | .i32 => .i32 <$> Reader.i32
  | .i64 => .i64 <$> Reader.i64
  | .double => .double <$> Reader.double
  | .string => .string <$> Reader.string
  | .binary => .binary <$> Reader.binary

/-- Reads a code. One that no member owns becomes the code for unknown members. -/
def readEnum (d : EnumDef) : Reader Value := do
  let code ← Reader.i32
  match d.memberOf? code with
  | some member => return .enum d.name member
  | none => return .i32 Value.unknownCode

/-- Reads fields up to the stop, each by its declaration, and skips those that have none. A header
takes at least a byte, so no more than `fuel` fields follow in an input of fewer than `fuel`
bytes. -/
def readFields (d : StructDef) (value : ValueReader) (fuel : Nat)
    (done : Table String Value) : Reading (Table String Value) :=
  match fuel with
  | 0 => throw (.wire (.stream .shortItem))
  | fuel + 1 => do
    let header : FieldHeader ← Reader.fieldHeader
    if header.wireType = .stop then return done
    match d.field? header.index with
    | some f =>
      match ← value f.type header.wireType with
      | some v => readFields d value fuel (done.insert f.name v)
      | none => readFields d value fuel done
    | none =>
      Reader.skip header.wireType
      readFields d value fuel done

def readFieldsOf (d : StructDef) (value : ValueReader) : Reading Value := do
  let rest ← get
  return .struct d.name (← readFields d value (rest.length + 1) [])

/-- Reads so many values and keeps those that are present. -/
def readPresent {α : Type} (n : Nat) (read : Reading (Option α)) : Reading (List α) :=
  match n with
  | 0 => return []
  | n + 1 => do
    let v ← read
    return v.toList ++ (← readPresent n read)

/-- Reads the elements of a list or a set; skips them all if they cannot be read as `elem`. -/
def readItems (s : Schema) (descend : Reading ValueReader) (elem : Ty) :
    Reading (Option (List Value)) := do
  let header : Wire.ListHeader ← Reader.listHeader
  let value ← descend
  if compatible (← wireType s elem) header.element then
    return some (← readPresent header.rounds (value elem header.element))
  else
    Reader.replicate header.rounds (Reader.skip header.element)
    return none

/-- Reads the entries of a map and keeps those whose key and value are both present. -/
def readEntries (s : Schema) (descend : Reading ValueReader) (key value : Ty) :
    Reading (Option (List (Value × Value))) := do
  let read ← descend
  let header : Wire.MapHeader ← Reader.mapHeader
  let keyWire ← wireType s key
  let valueWire ← wireType s value
  if compatible keyWire header.key && compatible valueWire header.value then
    return some (← readPresent header.rounds do
      let k ← read key header.key
      let v ← read value header.value
      return k.bind fun k => v.map fun v => (k, v))
  else
    Reader.replicate header.rounds do
      Reader.skip header.key
      Reader.skip header.value
    return none

/-- Reads a value whose wire type is that of its shape. `descend` gives the reader for what is
nested in it, or fails at the depth limit. -/
def readShape (s : Schema) (descend : Reading ValueReader) : Shape → Reading (Option Value)
  | .prim p => some <$> (readPrimitive p : Reader Value)
  | .enum d => some <$> (readEnum d : Reader Value)
  | .struct d => do return some (← readFieldsOf d (← descend))
  | .list elem => do return (← readItems s descend elem).map .list
  | .set elem => do return (← readItems s descend elem).map (.set ∘ Value.distinct)
  | .map key value => do return (← readEntries s descend key value).map .map

def readCoerced (s : Schema) (descend : Reading ValueReader) : ValueReader := fun ty observed => do
  if observed = .stop then return none
  let shape ← resolve s ty
  if shape.wireType = observed then readShape s descend shape
  else if shape.wireType = .string then
    return (← readAsText observed).bind (ofText shape)
  else if observed = .string then
    let bytes ← Reader.binary
    return (Text.Utf8.decode bytes).toOption.bind (ofText shape)
  else
    Reader.skip observed
    return none

/-- Reads values that nest at most `depth` deep. -/
def readWithin (s : Schema) : Nat → ValueReader
  | 0 => readCoerced s (throw (.wire .depthLimit))
  | depth + 1 => readCoerced s (return readWithin s depth)

/-- How deep a value may nest. -/
def depthLimit : Nat := 64

/-- Reads a value of a type that the wire announces as `observed`. It is consumed also if it is no
value of the type. -/
def decode (s : Schema) (ty : Ty) (observed : WireType) : Reading (Option Value) :=
  readWithin s depthLimit ty observed

def readStruct (s : Schema) (d : StructDef) : Reading Value :=
  readFieldsOf d (readWithin s (depthLimit - 1))

end ThriftRpc.Codec
