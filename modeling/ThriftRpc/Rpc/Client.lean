import ThriftRpc.Rpc.Channel

/-!
# Clients

Calling the functions of a service. A call is checked and prepared before anything is sent; a
oneway call is over when its request is flushed, any other one waits for the reply. All messages
bear the sequence id 0.
-/

namespace ThriftRpc.Rpc

structure Client where
  schema : Schema
  service : String

abbrev Calling (α : Type) := ExceptT CallFault (StateM Channel) α

namespace Client

/-- A request that is ready to be sent. -/
structure Request where
  function : FunctionDef
  arguments : Value

def function (c : Client) (name : String) : Except CallFault FunctionDef :=
  match (c.schema.service? c.service).bind (·.function? name) with
  | some f => .ok f
  | none => .error (.unknownFunction c.service name)

/-- Prepares positional arguments. Arguments may be left out at the end. -/
def prepare (c : Client) (name : String) (arguments : List Value) : Except CallFault Request := do
  let f ← c.function name
  if f.arguments.length < arguments.length then
    throw (.codec (.mismatch s!"at most {f.arguments.length} arguments to {name}"
      (toString arguments.length)))
  let given : Value :=
    .struct f.argsStruct.name (Table.ofList ((f.arguments.map (·.name)).zip arguments))
  let prepared ← (Codec.prepareStruct c.schema f.argsStruct given).mapError .ofCodec
  return ⟨f, prepared⟩

def send (c : Client) (r : Request) : Codec.Writing Unit :=
  writeMessage ⟨r.function.name, .call, 0⟩
    (Codec.writePreparedStruct c.schema r.function.argsStruct r.arguments)

/-- The outcome that a result struct stands for: the first declared exception that is present, or
else the result. -/
def outcome (f : FunctionDef) (result : Value) : Except CallFault (Option Value) :=
  match f.throws.findSome? fun d => result.get? d.name with
  | some e => .error (.declared e)
  | none => .ok (result.get? "success")

/-- Reads the struct of a message that is no reply, and reports it. -/
def receiveOther (f : FunctionDef) (kind : MessageKind) : Codec.Reading ApplicationException := do
  if kind = .exception then ApplicationException.read
  else
    Wire.Reader.skip .struct
    return ⟨.invalidMessageType, s!"Expected a reply to {f.name}, got {kind.text}"⟩

/-- Reads one message and takes it as the reply to a call of `f`. -/
def receive (c : Client) (f : FunctionDef) : Codec.Reading (Except CallFault (Option Value)) := do
  let header ← readHeader
  if header.kind ≠ .reply then
    return .error (.application (← receiveOther f header.kind))
  let result ← Codec.readStruct c.schema f.resultStruct
  if header.name ≠ f.name then
    return .error (.application
      ⟨.wrongMethodName, s!"Expected a reply to {f.name}, got one to {header.name}"⟩)
  return outcome f result

/-- Calls a function with positional arguments. There is no result from a function that returns
nothing, nor from a oneway function. -/
def call (c : Client) (name : String) (arguments : List Value) : Calling (Option Value) := do
  let request ← liftExcept (c.prepare name arguments)
  ExceptT.adapt CallFault.ofCodec (Channel.writing (c.send request))
  if request.function.oneway then return none
  let reply ← ExceptT.adapt CallFault.ofCodec (Channel.reading (c.receive request.function))
  liftExcept reply

end Client

end ThriftRpc.Rpc
