import ThriftRpc.Double.Basic
import ThriftRpc.Wire.BigEndian
import ThriftRpc.Wire.Fault
import ThriftRpc.Wire.Kind

/-!
# Reading values off bytes

A `Reader` consumes bytes from the front of its input. Integers have a fixed width, texts and
byte strings announce their length, containers their element types and count. A read that wants
more than there is takes all that was left.
-/

namespace ThriftRpc.Wire

abbrev Reader (α : Type) := ExceptT Fault (StateM (List UInt8)) α

/-- The first `n` elements and the rest, if there are that many. -/
def splitFirst? {α : Type} : Nat → List α → Option (List α × List α)
  | 0, s => some ([], s)
  | _ + 1, [] => none
  | n + 1, a :: s => (splitFirst? n s).map fun p => (a :: p.1, p.2)

theorem splitFirst?_append {α : Type} (s t : List α) :
    splitFirst? s.length (s ++ t) = some (s, t) := by
  induction s with
  | nil => rfl
  | cons a s ih => simp [splitFirst?, ih]

theorem eq_append_of_splitFirst? {α : Type} {n : Nat} {s p t : List α}
    (h : splitFirst? n s = some (p, t)) : s = p ++ t ∧ p.length = n := by
  induction n generalizing s p with
  | zero => simp [splitFirst?] at h; simp [h]
  | succ n ih =>
    cases s with
    | nil => simp [splitFirst?] at h
    | cons a s =>
      simp only [splitFirst?, Option.map_eq_some_iff] at h
      obtain ⟨⟨p', t'⟩, hs, hp⟩ := h
      cases hp
      obtain ⟨rfl, rfl⟩ := ih hs
      simp

namespace Reader

/-- The next `n` bytes; the fault `short` if there are fewer. -/
def bytes (n : Nat) (short : StreamFault) : Reader (List UInt8) := do
  match splitFirst? n (← get) with
  | some (taken, rest) =>
    set rest
    return taken
  | none =>
    set ([] : List UInt8)
    throw (.stream short)

/-- An unsigned number of `width` bytes. -/
def unsigned (width : Nat) : Reader Nat := return BigEndian.ofBytes (← bytes width .shortItem)

def uint8 : Reader UInt8 := return UInt8.ofNat (← unsigned 1)
def bool : Reader Bool := return (← uint8) != 0
def byte : Reader Int8 := return (← uint8).toInt8
def i16 : Reader Int16 := return (UInt16.ofNat (← unsigned 2)).toInt16
def i32 : Reader Int32 := return (UInt32.ofNat (← unsigned 4)).toInt32
def i64 : Reader Int64 := return (UInt64.ofNat (← unsigned 8)).toInt64
def double : Reader Double := return ⟨UInt64.ofNat (← unsigned 8)⟩

/-- A count or length, which may not be negative. -/
def size : Reader Int32 := do
  let n ← i32
  if n < 0 then throw (.malformed (.negativeSize n))
  return n

def binary : Reader (List UInt8) := do bytes (← size).toInt.toNat .shortBytes

/-- Takes bytes to be a text. -/
def text (bytes : List UInt8) : Reader String :=
  match Text.Utf8.decode bytes with
  | .ok s => return s
  | .error fault => throw (.malformed (.text fault))

def string : Reader String := do text (← binary)

def wireType : Reader WireType := do
  let code ← uint8
  match WireType.ofCode? code with
  | some w => return w
  | none => throw (.malformed (.wireType code))

end Reader

/-- What precedes a field. The stop that ends a struct has no index on the wire. -/
structure FieldHeader where
  wireType : WireType
  index : Int16

/-- What precedes the elements of a list or a set. -/
structure ListHeader where
  element : WireType
  size : Int32

structure MapHeader where
  key : WireType
  value : WireType
  size : Int32

namespace Reader

def fieldHeader : Reader FieldHeader := do
  let w ← wireType
  if w = .stop then return ⟨w, 0⟩
  return ⟨w, ← i16⟩

def listHeader : Reader ListHeader := do
  let element ← wireType
  return ⟨element, ← size⟩

def mapHeader : Reader MapHeader := do
  let key ← wireType
  let value ← wireType
  return ⟨key, value, ← size⟩

end Reader

/-- How many readings stand for `size` of them. Elements without bytes are all read alike and leave
nothing, so one stands for all. -/
def rounds (vacant : Bool) (size : Int32) : Nat :=
  if vacant then min size.toInt.toNat 1 else size.toInt.toNat

def ListHeader.rounds (h : ListHeader) : Nat := Wire.rounds h.element.isVacant h.size

def MapHeader.rounds (h : MapHeader) : Nat :=
  Wire.rounds (h.key.isVacant && h.value.isVacant) h.size

end ThriftRpc.Wire
