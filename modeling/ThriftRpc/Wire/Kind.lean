/-!
# Codes on the wire

The one-byte tags of values and of messages.
-/

namespace ThriftRpc

/-- The tag that announces a value. -/
inductive WireType where
  | stop
  | void
  | bool
  | byte
  | double
  | i16
  | i32
  | i64
  | string
  | struct
  | map
  | set
  | list
  deriving DecidableEq, Repr

namespace WireType

def code : WireType → UInt8
  | stop => 0
  | void => 1
  | bool => 2
  | byte => 3
  | double => 4
  | i16 => 6
  | i32 => 8
  | i64 => 10
  | string => 11
  | struct => 12
  | map => 13
  | set => 14
  | list => 15

def ofCode? (n : UInt8) : Option WireType :=
  match n.toNat with
  | 0 => some stop
  | 1 => some void
  | 2 => some bool
  | 3 => some byte
  | 4 => some double
  | 6 => some i16
  | 8 => some i32
  | 10 => some i64
  | 11 => some string
  | 12 => some struct
  | 13 => some map
  | 14 => some set
  | 15 => some list
  | _ => none

theorem ofCode?_code (w : WireType) : ofCode? w.code = some w := by cases w <;> rfl

def text : WireType → String
  | stop => "STOP"
  | void => "VOID"
  | bool => "BOOL"
  | byte => "BYTE"
  | double => "DOUBLE"
  | i16 => "I16"
  | i32 => "I32"
  | i64 => "I64"
  | string => "STRING"
  | struct => "STRUCT"
  | map => "MAP"
  | set => "SET"
  | list => "LIST"

/-- A value of this type has no bytes. -/
def isVacant : WireType → Bool
  | stop | void => true
  | _ => false

end WireType

inductive MessageKind where
  | call
  | reply
  | exception
  | oneway
  deriving DecidableEq, Repr

namespace MessageKind

def code : MessageKind → UInt8
  | call => 1
  | reply => 2
  | exception => 3
  | oneway => 4

def ofCode? (n : UInt8) : Option MessageKind :=
  match n.toNat with
  | 1 => some call
  | 2 => some reply
  | 3 => some exception
  | 4 => some oneway
  | _ => none

theorem ofCode?_code (k : MessageKind) : ofCode? k.code = some k := by cases k <;> rfl

def text : MessageKind → String
  | call => "Call"
  | reply => "Reply"
  | exception => "Exception"
  | oneway => "Oneway"

end MessageKind

end ThriftRpc
