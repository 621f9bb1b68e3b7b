import ThriftRpc.Text.Utf8

/-!
# Transport faults

What can go wrong between values and bytes. The end of the input comes in two wordings, for an
item of fixed width and for bytes whose count was announced.
-/

namespace ThriftRpc.Wire

/-- Bytes that no value or message starts with. -/
inductive Malformed where
  | wireType (code : UInt8)
  | messageKind (code : UInt8)
  | negativeSize (size : Int32)
  /-- The upper half of a message header that is no known version, in place. -/
  | version (word : UInt32)
  | text (fault : Text.Utf8.Fault)
  | tooLong (length : Nat)
  /-- A reason in words, from a transport of another kind. -/
  | other (reason : String)

def Malformed.message : Malformed → String
  | wireType code => s!"unknown wire type {code.toNat}"
  | messageKind code => s!"unknown message type {code.toNat}"
  | negativeSize size => s!"negative size {size.toInt}"
  | version word => "bad protocol version 0x" ++ String.ofList (Nat.toDigits 16 word.toNat)
  | text fault => fault.message
  | tooLong length => s!"{length} bytes is too long"
  | other reason => reason

/-- Why a stream gives or takes no more bytes. -/
inductive StreamFault where
  /-- The input ended inside an item of fixed width. -/
  | shortItem
  /-- The input ended before the announced number of bytes. -/
  | shortBytes
  /-- The output takes no more bytes. -/
  | full
  /-- The other end of the pipe is gone. -/
  | peerGone
  deriving DecidableEq, Repr

def StreamFault.message : StreamFault → String
  | shortItem => "failed to fill whole buffer"
  | shortBytes => "unexpected end of file"
  | full => "failed to write whole buffer"
  | peerGone => "pipe peer closed"

inductive Fault where
  | stream (cause : StreamFault)
  | closed
  | malformed (cause : Malformed)
  | depthLimit

namespace Fault

def message : Fault → String
  | stream cause => "IO error: " ++ cause.message
  | closed => "Transport closed"
  | malformed cause => "Invalid data: " ++ cause.message
  | depthLimit => "Nesting depth limit exceeded while skipping"

/-- The other side has gone away. -/
def isEnd : Fault → Bool
  | stream .shortItem | stream .shortBytes | closed => true
  | _ => false

end Fault

end ThriftRpc.Wire
