import ThriftRpc.Codec.Read
import ThriftRpc.Codec.Write

/-!
# Application exceptions

A failure of the call itself, reported in place of a reply: a kind and a text, sent as a struct.
-/

namespace ThriftRpc.Rpc

inductive ExceptionKind where
  | unknown
  | unknownMethod
  | invalidMessageType
  | wrongMethodName
  | badSequenceId
  | missingResult
  | internalError
  | protocolError
  deriving DecidableEq, Repr

namespace ExceptionKind

def code : ExceptionKind → Int32
  | unknown => 0
  | unknownMethod => 1
  | invalidMessageType => 2
  | wrongMethodName => 3
  | badSequenceId => 4
  | missingResult => 5
  | internalError => 6
  | protocolError => 7

/-- Codes of no kind are unknown. -/
def ofCode (n : Int32) : ExceptionKind :=
  match n.toInt with
  | 1 => unknownMethod
  | 2 => invalidMessageType
  | 3 => wrongMethodName
  | 4 => badSequenceId
  | 5 => missingResult
  | 6 => internalError
  | 7 => protocolError
  | _ => unknown

theorem ofCode_code (k : ExceptionKind) : ofCode k.code = k := by cases k <;> rfl

def text : ExceptionKind → String
  | unknown => "Unknown"
  | unknownMethod => "UnknownMethod"
  | invalidMessageType => "InvalidMessageType"
  | wrongMethodName => "WrongMethodName"
  | badSequenceId => "BadSequenceId"
  | missingResult => "MissingResult"
  | internalError => "InternalError"
  | protocolError => "ProtocolError"

end ExceptionKind

structure ApplicationException where
  kind : ExceptionKind
  text : String
  deriving DecidableEq, Repr

namespace ApplicationException

def message (e : ApplicationException) : String := e.kind.text ++ ": " ++ e.text

def structDef : StructDef :=
  .ofFields "TApplicationException" .exception
    [{ index := 1, name := "message", type := .prim .string },
      { index := 2, name := "type", type := .prim .i32 }]

def toValue (e : ApplicationException) : Value :=
  .struct structDef.name [("message", .string e.text), ("type", .i32 e.kind.code)]

/-- What is absent counts as no text and as the kind that is unknown. -/
def ofValue (v : Value) : ApplicationException where
  kind := .ofCode ((v.get? "type").elim 0 Value.asI32)
  text := (v.get? "message").elim "" Value.asString

def write (e : ApplicationException) : Codec.Writing Unit :=
  Codec.writeStruct {} structDef e.toValue

def read : Codec.Reading ApplicationException := return ofValue (← Codec.readStruct {} structDef)

end ApplicationException

end ThriftRpc.Rpc
