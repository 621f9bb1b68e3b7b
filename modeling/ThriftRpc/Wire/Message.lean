import ThriftRpc.Wire.Reader
import ThriftRpc.Wire.Writer

/-!
# Message headers

What precedes the struct of a call or a reply: a name, a kind and a sequence id. Two layouts are
read, the strict one with a version in its first word and an older one without; the sign of the
first word tells them apart. Only the strict layout is written.
-/

namespace ThriftRpc.Wire

structure MessageHeader where
  name : String
  kind : MessageKind
  sequence : Int32
  deriving DecidableEq, Repr

/-- The upper half of the first word of the strict layout. -/
def strictVersion : UInt32 := 0x80010000

def Writer.messageHeader (h : MessageHeader) : Writer Unit := do
  i32 (strictVersion ||| h.kind.code.toUInt32).toInt32
  string h.name
  i32 h.sequence

namespace Reader

/-- The name and the code of the kind, in either layout. -/
def messageName : Reader (String × UInt8) := do
  let first ← i32
  if first < 0 then
    let word := first.toUInt32
    let version := word &&& 0xFFFF0000
    if version ≠ strictVersion then throw (.malformed (.version version))
    return (← string, word.toUInt8)
  else
    let name ← text (← bytes first.toInt.toNat .shortBytes)
    return (name, ← uint8)

def messageHeader : Reader MessageHeader := do
  let (name, code) ← messageName
  match MessageKind.ofCode? code with
  | none => throw (.malformed (.messageKind code))
  | some kind => return ⟨name, kind, ← i32⟩

end Reader

end ThriftRpc.Wire
