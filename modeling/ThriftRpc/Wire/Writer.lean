import ThriftRpc.Wire.Reader

/-!
# Writing values as bytes

A `Writer` appends to its output. An output may have room for only so many bytes more; what does
not fit is cut off and the write fails.
-/

namespace ThriftRpc.Wire

/-- What has been written, how much of it was flushed, and how many bytes more there is room for,
if that is bounded. -/
structure Output where
  sent : List UInt8 := []
  room : Option Nat := none
  flushed : Nat := 0

abbrev Writer (α : Type) := ExceptT Fault (StateM Output) α

namespace Writer

def bytes (data : List UInt8) : Writer Unit := do
  let out ← get
  match out.room with
  | none => set { out with sent := out.sent ++ data }
  | some room =>
    let taken := data.take room
    set { out with sent := out.sent ++ taken, room := some (room - taken.length) }
    if taken.length < data.length then throw (.stream .full)

/-- Hands everything written so far to the other side. -/
def flush : Writer Unit := modify fun out => { out with flushed := out.sent.length }

def unsigned (width n : Nat) : Writer Unit := bytes (BigEndian.toBytes width n)

def uint8 (n : UInt8) : Writer Unit := unsigned 1 n.toNat
def bool (b : Bool) : Writer Unit := uint8 (if b then 1 else 0)
def byte (n : Int8) : Writer Unit := uint8 n.toUInt8
def i16 (n : Int16) : Writer Unit := unsigned 2 n.toUInt16.toNat
def i32 (n : Int32) : Writer Unit := unsigned 4 n.toUInt32.toNat
def i64 (n : Int64) : Writer Unit := unsigned 8 n.toUInt64.toNat
def double (x : Double) : Writer Unit := unsigned 8 x.bits.toNat

/-- The greatest length and count that a header can hold. -/
def maxSize : Nat := 0x7FFFFFFF

def binary (data : List UInt8) : Writer Unit := do
  if maxSize < data.length then throw (.malformed (.tooLong data.length))
  i32 (Int32.ofNat data.length)
  bytes data

def string (s : String) : Writer Unit := binary (Text.Utf8.encode s)

def wireType (w : WireType) : Writer Unit := uint8 w.code

def fieldHeader (h : FieldHeader) : Writer Unit := do
  wireType h.wireType
  i16 h.index

def fieldStop : Writer Unit := wireType .stop

def listHeader (h : ListHeader) : Writer Unit := do
  wireType h.element
  i32 h.size

def mapHeader (h : MapHeader) : Writer Unit := do
  wireType h.key
  wireType h.value
  i32 h.size

end Writer

end ThriftRpc.Wire
