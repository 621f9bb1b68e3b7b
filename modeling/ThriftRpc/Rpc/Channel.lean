import ThriftRpc.Rpc.Fault
import ThriftRpc.Wire.Message

/-!
# Channels

The two directions of a connection as one side sees them: bytes that arrived and are not read
yet, and bytes written.
-/

namespace ThriftRpc.Rpc

structure Channel where
  incoming : List UInt8 := []
  outgoing : Wire.Output := {}

namespace Channel

/-- Runs a reader on what arrived. -/
def reading {α : Type} (read : Codec.Reading α) : ExceptT Codec.Fault (StateM Channel) α :=
  fun c => let (answer, rest) := read c.incoming; (answer, { c with incoming := rest })

/-- Runs a writer on what is sent. -/
def writing {α : Type} (write : Codec.Writing α) : ExceptT Codec.Fault (StateM Channel) α :=
  fun c => let (answer, out) := write c.outgoing; (answer, { c with outgoing := out })

end Channel

/-- Reads the header of a message. -/
def readHeader : Codec.Reading Wire.MessageHeader := Wire.Reader.messageHeader

/-- Writes a whole message and flushes it. -/
def writeMessage (h : Wire.MessageHeader) (body : Codec.Writing Unit) : Codec.Writing Unit := do
  Wire.Writer.messageHeader h
  body
  Wire.Writer.flush

end ThriftRpc.Rpc
