import ThriftRpc.Rpc.Exception

/-!
# Call faults

Why a call has no result, why a handler has none, and why a server stops.
-/

namespace ThriftRpc.Rpc

inductive CallFault where
  /-- The handler raised an exception that the function declares. -/
  | declared (e : Value)
  | application (e : ApplicationException)
  | codec (fault : Codec.Fault)
  | transport (fault : Wire.Fault)
  | unknownFunction (service function : String)

namespace CallFault

/-- A transport fault is one wherever it arose. -/
def ofCodec : Codec.Fault → CallFault
  | .wire fault => transport fault
  | fault => codec fault

def message : CallFault → String
  | declared e => "Declared exception: " ++ e.shown
  | application e => "Application exception: " ++ e.message
  | codec fault => "Codec error: " ++ fault.message
  | transport fault => "Transport error: " ++ fault.message
  | unknownFunction service function => s!"Unknown function {service}.{function}"

end CallFault

/-- What a handler reports instead of a result. -/
inductive HandlerFault where
  | declared (e : Value)
  | failed (text : String)

namespace HandlerFault

def ofCodec (fault : Codec.Fault) : HandlerFault := failed fault.message

def message : HandlerFault → String
  | declared e => "Declared exception: " ++ e.shown
  | failed text => text

end HandlerFault

inductive ProcessFault where
  | transport (fault : Wire.Fault)
  | codec (fault : Codec.Fault)
  | unknownService (name : String)

namespace ProcessFault

def ofCodec : Codec.Fault → ProcessFault
  | .wire fault => transport fault
  | fault => codec fault

def message : ProcessFault → String
  | transport fault => "Transport error: " ++ fault.message
  | codec fault => "Codec error: " ++ fault.message
  | unknownService name => "Unknown service " ++ name

/-- The peer has gone away. -/
def isEnd : ProcessFault → Bool
  | transport fault => fault.isEnd
  | _ => false

end ProcessFault

end ThriftRpc.Rpc
