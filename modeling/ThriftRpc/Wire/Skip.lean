import ThriftRpc.Wire.Reader

/-!
# Skipping values

Consuming a value of which only the wire type is known. Values may nest 64 deep, the scalars at
the bottom counted as a level of their own.
-/

namespace ThriftRpc.Wire.Reader

/-- Skips the fields of a struct up to the stop, each by `skip`. A header takes at least a byte, so
no more than `fuel` fields follow in an input of fewer than `fuel` bytes. -/
def skipFields (skip : WireType → Reader Unit) (fuel : Nat) : Reader Unit :=
  match fuel with
  | 0 => throw (.stream .shortItem)
  | fuel + 1 => do
    let header ← fieldHeader
    if header.wireType = .stop then return
    skip header.wireType
    skipFields skip fuel

/-- Runs a reader a number of times. -/
def replicate (n : Nat) (read : Reader Unit) : Reader Unit :=
  match n with
  | 0 => return
  | n + 1 => do
    read
    replicate n read

def skipWithin (depth : Nat) (w : WireType) : Reader Unit :=
  match depth with
  | 0 => throw .depthLimit
  | depth + 1 =>
    match w with
    | .stop | .void => return
    | .bool => discard bool
    | .byte => discard byte
    | .i16 => discard i16
    | .i32 => discard i32
    | .i64 => discard i64
    | .double => discard double
    | .string => discard binary
    | .struct => do
      let rest ← get
      skipFields (skipWithin depth) (rest.length + 1)
    | .list | .set => do
      let header ← listHeader
      replicate header.rounds (skipWithin depth header.element)
    | .map => do
      let header ← mapHeader
      replicate header.rounds do
        skipWithin depth header.key
        skipWithin depth header.value

/-- How deep a value to be skipped may nest. -/
def skipLimit : Nat := 64

def skip (w : WireType) : Reader Unit := skipWithin skipLimit w

end ThriftRpc.Wire.Reader
