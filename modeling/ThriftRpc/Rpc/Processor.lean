import ThriftRpc.Codec.Native
import ThriftRpc.Rpc.Channel

/-!
# Processors

Serving the functions of a service. Each request that arrives is answered with a reply, with an
exception, or not at all if nobody waits for it. A function without a handler is an unknown
method.
-/

namespace ThriftRpc.Rpc

/-- The arguments of a call in order of declaration; one that the caller left out is absent. -/
structure Arguments where
  names : List String
  values : List (Option Value)

namespace Arguments

def ofStruct (f : FunctionDef) (args : Value) : Arguments where
  names := f.arguments.map (·.name)
  values := f.arguments.map fun d => args.get? d.name

def size (a : Arguments) : Nat := a.values.length

def isEmpty (a : Arguments) : Bool := a.values.isEmpty

def get? (a : Arguments) (position : Nat) : Option Value := a.values[position]?.join

def named? (a : Arguments) (name : String) : Option Value :=
  (a.names.idxOf? name).bind a.get?

/-- The argument at a position as a native type; it must be present. -/
def value (α : Type) [Codec.Native α] (a : Arguments) (position : Nat) : Except HandlerFault α :=
  let answer := match a.get? position with
    | some v => Codec.Native.ofValue v
    | none => .error (.missingField ((a.names[position]?).getD "?"))
  answer.mapError .ofCodec

end Arguments

abbrev Handler := Arguments → Except HandlerFault (Option Value)

structure Processor where
  schema : Schema
  service : String
  handlers : Table String Handler

/-- What a handler was given and what it reported. -/
structure HandlerRun where
  function : String
  arguments : Arguments
  outcome : Except HandlerFault (Option Value)

/-- A server's side of a connection, with the handlers run so far. -/
structure Session where
  channel : Channel := {}
  runs : List HandlerRun := []

abbrev Serving (α : Type) := ExceptT ProcessFault (StateM Session) α

namespace Serving

/-- Does something with the channel. -/
def onChannel {α : Type} (act : ExceptT Codec.Fault (StateM Channel) α) : Serving α := fun s =>
  let (answer, channel) := act s.channel
  (answer.mapError .ofCodec, { s with channel })

def reading {α : Type} (read : Codec.Reading α) : Serving α := onChannel (Channel.reading read)

def writing {α : Type} (write : Codec.Writing α) : Serving α := onChannel (Channel.writing write)

end Serving

namespace Processor

open Wire (MessageHeader)

def replyException (request : MessageHeader) (e : ApplicationException) : Serving Unit :=
  Serving.writing (writeMessage { request with kind := .exception } e.write)

/-- The result struct that reports an outcome, or the text of an internal error. -/
def resultStruct (f : FunctionDef) : Except HandlerFault (Option Value) → Except String Value
  | .ok v =>
    let success := if f.returns.isSome then v else none
    .ok (.struct f.resultStruct.name (success.toList.map fun v => ("success", v)))
  | .error (.declared e) =>
    let field := match e with
      | .struct name _ => f.throwsFieldFor? name
      | _ => none
    match field with
    | some d => .ok (.struct f.resultStruct.name [(d.name, e)])
    | none => .error ("Undeclared exception " ++ e.shown)
  | .error (.failed text) => .error text

/-- The prepared result struct of an outcome, or the text of an internal error. -/
def preparedResult (p : Processor) (f : FunctionDef)
    (outcome : Except HandlerFault (Option Value)) : Except String Value := do
  let result ← resultStruct f outcome
  (Codec.prepareStruct p.schema f.resultStruct result).mapError (·.message)

def reply (p : Processor) (request : MessageHeader) (f : FunctionDef)
    (outcome : Except HandlerFault (Option Value)) : Serving Unit :=
  match p.preparedResult f outcome with
  | .ok result =>
    Serving.writing (writeMessage { request with kind := .reply }
      (Codec.writePreparedStruct p.schema f.resultStruct result))
  | .error text => replyException request ⟨.internalError, text⟩

/-- Handles a request for a function that is declared and has a handler. -/
def answer (p : Processor) (request : MessageHeader) (f : FunctionDef) (handler : Handler) :
    Serving Bool := do
  let args ← Serving.reading (Codec.readStruct p.schema f.argsStruct)
  let arguments := Arguments.ofStruct f args
  let outcome := handler arguments
  modify fun s => { s with runs := s.runs ++ [⟨request.name, arguments, outcome⟩] }
  if f.oneway then return false
  p.reply request f outcome
  return true

/-- Consumes the struct of a message that no handler takes. -/
def dismiss : Serving Unit := Serving.reading (Wire.Reader.skip .struct)

/-- Handles one message; the answer says whether one was written back. -/
def process (p : Processor) : Serving Bool := do
  let request ← Serving.reading readHeader
  if request.kind ≠ .call ∧ request.kind ≠ .oneway then
    dismiss
    replyException request ⟨.invalidMessageType, s!"Expected a call, got {request.kind.text}"⟩
    return true
  let some service := p.schema.service? p.service | throw (.unknownService p.service)
  match service.function? request.name, p.handlers.find? request.name with
  | some f, some handler => p.answer request f handler
  | _, _ =>
    dismiss
    if request.kind = .oneway then return false
    replyException request ⟨.unknownMethod, s!"Unknown function {request.name}"⟩
    return true

/-- Handles messages until one fails. A message takes at least a byte, so no more than `fuel`
follow in an input of fewer than `fuel` bytes. -/
def serveUpTo (p : Processor) : Nat → Serving Unit
  | 0 => return
  | fuel + 1 => do
    discard p.process
    serveUpTo p fuel

/-- Handles messages until the input ends, which is no fault. -/
def serve (p : Processor) : Serving Unit := do
  let s ← get
  tryCatch (p.serveUpTo (s.channel.incoming.length + 1)) fun fault =>
    if fault.isEnd then return else throw fault

end Processor

end ThriftRpc.Rpc
