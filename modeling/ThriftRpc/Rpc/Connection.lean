import ThriftRpc.Rpc.Client
import ThriftRpc.Rpc.Processor

/-!
# Connections

A client and a server joined in both directions. Flushed bytes arrive at once, and the server
handles what has arrived before the client goes on; a message of which only a part has arrived
waits for the rest. A server that fails closes its end.
-/

namespace ThriftRpc.Rpc

structure Connection where
  client : Channel := {}
  server : Session := {}
  /-- Why the server stopped, if it did. -/
  failed : Option ProcessFault := none

namespace Connection

/-- Moves what one side has flushed to the other side's input. -/
def transfer (sender receiver : Channel) : Channel × Channel :=
  let out := sender.outgoing
  ({ sender with outgoing := { out with sent := out.sent.drop out.flushed, flushed := 0 } },
    { receiver with incoming := receiver.incoming ++ out.sent.take out.flushed })

def toServer (c : Connection) : Connection :=
  let (client, channel) := transfer c.client c.server.channel
  { c with client, server := { c.server with channel } }

def toClient (c : Connection) : Connection :=
  let (channel, client) := transfer c.server.channel c.client
  { c with client, server := { c.server with channel } }

/-- Lets the server handle the messages that have arrived whole. -/
def serveArrived (p : Processor) (c : Connection) : Nat → Connection
  | 0 => c
  | fuel + 1 =>
    match p.process c.server with
    | (.ok _, server) => serveArrived p { c with server } fuel
    | (.error fault, server) =>
      if fault.isEnd then c else { c with server, failed := some fault }

/-- Lets the server run, unless it has stopped, and passes its replies on. -/
def runServer (p : Processor) (c : Connection) : Connection :=
  match c.failed with
  | some _ => c
  | none => (serveArrived p c (c.server.channel.incoming.length + 1)).toClient

/-- Sends a request. What is flushed to a server that has stopped is lost. -/
def send (client : Client) (r : Client.Request) (c : Connection) :
    Except CallFault Unit × Connection :=
  match Channel.writing (client.send r) c.client with
  | (.error fault, channel) => (.error (.ofCodec fault), { c with client := channel })
  | (.ok (), channel) =>
    if c.failed.isSome then
      (.error (.transport (.stream .peerGone)), { c with client := { channel with outgoing := {} } })
    else (.ok (), { c with client := channel }.toServer)

/-- A call from request to reply. -/
def call (client : Client) (p : Processor) (name : String) (arguments : List Value)
    (c : Connection) : Except CallFault (Option Value) × Connection :=
  match client.prepare name arguments with
  | .error fault => (.error fault, c)
  | .ok request =>
    match c.send client request with
    | (.error fault, c) => (.error fault, c)
    | (.ok (), c) =>
      let c := c.runServer p
      if request.function.oneway then (.ok none, c)
      else
        match Channel.reading (client.receive request.function) c.client with
        | (.error fault, channel) => (.error (.ofCodec fault), { c with client := channel })
        | (.ok reply, channel) => (reply, { c with client := channel })

/-- Calls one after the other. -/
def calls (client : Client) (p : Processor) (c : Connection) :
    List (String × List Value) → List (Except CallFault (Option Value)) × Connection
  | [] => ([], c)
  | (name, arguments) :: rest =>
    let (result, c) := c.call client p name arguments
    let (results, c) := calls client p c rest
    (result :: results, c)

/-- How serving ends when the client goes away. -/
def served (c : Connection) : Except ProcessFault Unit :=
  match c.failed with
  | some fault => .error fault
  | none => .ok ()

end Connection

end ThriftRpc.Rpc
