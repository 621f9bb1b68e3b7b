/-!
# UTF-8

Bytes and text. `decode` accepts exactly what `encode` writes (`decode_eq_ok_iff`); of bytes
that are no text it says how far they are one, and whether they stop inside a character or go
wrong there.
-/

namespace ThriftRpc.Text.Utf8

/-- Why bytes are not a text: the offset of the first faulty character, and how many of its
bytes could begin a character, or nothing if the input merely ends too early. -/
structure Fault where
  offset : Nat
  width : Option Nat
  deriving DecidableEq, Repr

def Fault.message (f : Fault) : String :=
  match f.width with
  | some n => s!"invalid utf-8 sequence of {n} bytes from index {f.offset}"
  | none => s!"incomplete utf-8 byte sequence from index {f.offset}"

/-- What the bytes after a leading byte turn out to be. -/
inductive Tail where
  /-- A whole character, with this many bytes after the leading one. -/
  | whole (count : Nat)
  /-- A byte that cannot follow, after this many bytes that can. -/
  | broken (count : Nat)
  /-- The end of the input, too early. -/
  | cut

def isContinuation (b : UInt8) : Bool := 0x80 ≤ b && b ≤ 0xBF

/-- The continuation bytes a leading byte asks for: the bounds of the first, and how many more
follow it. -/
def bounds? (lead : UInt8) : Option (UInt8 × UInt8 × Nat) :=
  if 0xC2 ≤ lead && lead ≤ 0xDF then some (0x80, 0xBF, 0)
  else if lead = 0xE0 then some (0xA0, 0xBF, 1)
  else if lead = 0xED then some (0x80, 0x9F, 1)
  else if 0xE1 ≤ lead && lead ≤ 0xEF then some (0x80, 0xBF, 1)
  else if lead = 0xF0 then some (0x90, 0xBF, 2)
  else if 0xF1 ≤ lead && lead ≤ 0xF3 then some (0x80, 0xBF, 2)
  else if lead = 0xF4 then some (0x80, 0x8F, 2)
  else none

/-- Reads `more` further continuation bytes after `count` good ones. -/
def continuations (count : Nat) : Nat → List UInt8 → Tail
  | 0, _ => .whole count
  | _ + 1, [] => .cut
  | more + 1, b :: s =>
    if isContinuation b then continuations (count + 1) more s else .broken count

def tail (lead : UInt8) (rest : List UInt8) : Tail :=
  if lead < 0x80 then .whole 0
  else match bounds? lead, rest with
    | none, _ => .broken 0
    | some _, [] => .cut
    | some (lo, hi, more), b :: s =>
      if lo ≤ b && b ≤ hi then continuations 1 more s else .broken 0

/-- The first fault from byte `offset` on; `skip` bytes belong to a character already judged. -/
def faultFrom (offset : Nat) : Nat → List UInt8 → Option Fault
  | _, [] => none
  | skip + 1, _ :: s => faultFrom (offset + 1) skip s
  | 0, b :: s =>
    match tail b s with
    | .whole count => faultFrom (offset + 1) count s
    | .broken count => some ⟨offset, some (count + 1)⟩
    | .cut => some ⟨offset, none⟩

def encode (s : String) : List UInt8 := s.toUTF8.data.toList

def decode (bytes : List UInt8) : Except Fault String :=
  match String.fromUTF8? bytes.toByteArray with
  | some s => .ok s
  | none => .error ((faultFrom 0 0 bytes).getD ⟨0, none⟩)

theorem toByteArray_encode (s : String) : (encode s).toByteArray = s.toUTF8 := by
  ext1
  simp [encode]

theorem decode_encode (s : String) : decode (encode s) = .ok s := by
  simp only [decode, toByteArray_encode]
  have h : s.toUTF8.IsValidUTF8 := s.isValidUTF8
  simp only [String.fromUTF8?, h, dif_pos]
  rfl

/-- Reading accepts exactly what writing produces. -/
theorem decode_eq_ok_iff {bytes : List UInt8} {s : String} :
    decode bytes = .ok s ↔ bytes = encode s := by
  refine ⟨fun h => ?_, fun h => h ▸ decode_encode s⟩
  by_cases hv : bytes.toByteArray.IsValidUTF8
  · simp only [decode, String.fromUTF8?, hv, dif_pos, Except.ok.injEq] at h
    subst h
    simp [encode, String.fromUTF8, String.toUTF8]
  · simp [decode, String.fromUTF8?, hv] at h

end ThriftRpc.Text.Utf8
