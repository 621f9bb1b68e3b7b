import ThriftRpc.Proofs.Rpc.Reply
import ThriftRpc.Proofs.Rpc.Request
import ThriftRpc.Proofs.Rpc.Serving
import ThriftRpc.Rpc.Connection

/-!
# Calls over an idle connection

On an idle connection nothing is unread on either side. A call sends one message, the server answers
it, and the client reads the answer if it waits for one; then the connection is idle again
(`call_idle`). A call of a function with a handler returns what the outcome of the handler means
(`call_handled`).
-/

namespace ThriftRpc.Rpc

open Wire (Reads ReadsIf MessageHeader Writer run_bind)

namespace Processor

/-- Without a byte to read there is no message. -/
theorem process_idle (p : Processor) (runs : List HandlerRun) (out : Wire.Output) :
    p.process ⟨⟨[], out⟩, runs⟩ = (.error (.transport (.stream .shortItem)), ⟨⟨[], out⟩, runs⟩) := by
  unfold process
  rw [run_bind]
  rfl

end Processor

namespace Connection

variable {client : Client} {p : Processor} {name : String} {arguments : List Value}
  {r : Client.Request} {runs ran : List HandlerRun} {m reply : List UInt8}

/-- Nothing is under way, but the client has left the bytes `unread`. -/
def behind (unread : List UInt8) (runs : List HandlerRun) : Connection :=
  { client := { incoming := unread }, server := { runs } }

/-- Nothing is unread or unsent, and the server goes on. -/
def idle (runs : List HandlerRun) : Connection := behind [] runs

theorem serveArrived_idle (p : Processor) {c : Connection}
    (h : c.server.channel.incoming = []) (fuel : Nat) : c.serveArrived p fuel = c := by
  cases fuel with
  | zero => rfl
  | succ fuel =>
    obtain ⟨client, ⟨⟨incoming, out⟩, runs⟩, failed⟩ := c
    cases h
    unfold serveArrived
    rw [Processor.process_idle]
    rfl

section Call

variable {unread left : List UInt8}

theorem runServer_answers (h : p.Answers m ran reply) :
    ({ client := { incoming := unread },
       server := { channel := { incoming := m }, runs } } : Connection).runServer p =
      behind (unread ++ reply) (runs ++ ran) := by
  obtain ⟨replied, hprocess⟩ := h runs
  unfold runServer serveArrived
  simp only [hprocess]
  rw [serveArrived_idle p rfl]
  simp [toClient, transfer, behind]

/-- A message that it rejects stops the server. -/
theorem runServer_rejects (h : p.Rejects m) (unread : List UInt8) (runs : List HandlerRun) :
    (({ client := { incoming := unread },
        server := { channel := { incoming := m }, runs } } : Connection).runServer p).failed ≠
      none := by
  obtain ⟨fault, s, hprocess, hend⟩ := h runs
  unfold runServer serveArrived
  simp only [hprocess, hend]
  simp [toClient, transfer]

theorem send_behind (h : Sends (client.send r) m) :
    (behind unread runs).send client r =
      (.ok (), { client := { incoming := unread },
                 server := { channel := { incoming := m }, runs } }) := by
  have hwrite : Channel.writing (client.send r) { incoming := unread } =
      (.ok (), ⟨unread, { sent := m, flushed := m.length }⟩) := by
    unfold Channel.writing
    rw [h {} rfl]
    rfl
  unfold send behind
  simp only [hwrite]
  simp [toServer, transfer]

variable (hprepare : client.prepare name arguments = .ok r) (hsend : Sends (client.send r) m)
include hprepare hsend

theorem call_rejected (h : p.Rejects m) :
    ((behind unread runs).call client p name arguments).2.failed ≠ none := by
  have hfailed := runServer_rejects h unread runs
  unfold call
  simp only [hprepare, send_behind hsend]
  split
  · exact hfailed
  · split <;> exact hfailed

variable (hanswers : p.Answers m ran reply)
include hanswers

/-- The client reads a message of what is there when the server has answered. -/
theorem call_two_way (honeway : r.function.oneway = false)
    {result : Except CallFault (Option Value)}
    (hread : client.receive r.function (unread ++ reply) = (.ok result, left)) :
    (behind unread runs).call client p name arguments = (result, behind left (runs ++ ran)) := by
  have hreceive : Channel.reading (client.receive r.function)
      (behind (unread ++ reply) (runs ++ ran)).client = (.ok result, { incoming := left }) := by
    unfold Channel.reading behind
    rw [hread]
  unfold call
  simp only [hprepare, send_behind hsend, runServer_answers hanswers, honeway, hreceive]
  rfl

/-- The client fails to read what the server has answered. -/
theorem call_unreadable (honeway : r.function.oneway = false) {fault : Codec.Fault}
    (hread : client.receive r.function (unread ++ reply) = (.error fault, left)) :
    (behind unread runs).call client p name arguments =
      (.error (.ofCodec fault), behind left (runs ++ ran)) := by
  have hreceive : Channel.reading (client.receive r.function)
      (behind (unread ++ reply) (runs ++ ran)).client = (.error fault, { incoming := left }) := by
    unfold Channel.reading behind
    rw [hread]
  unfold call
  simp only [hprepare, send_behind hsend, runServer_answers hanswers, honeway, hreceive]
  rfl

/-- The client reads nothing. -/
theorem call_oneway (honeway : r.function.oneway = true) :
    (behind unread runs).call client p name arguments =
      (.ok none, behind (unread ++ reply) (runs ++ ran)) := by
  unfold call
  simp only [hprepare, send_behind hsend, runServer_answers hanswers, honeway, if_true]

/-- The client reads the answer to its own request. -/
theorem call_idle (honeway : r.function.oneway = false)
    {result : Except CallFault (Option Value)}
    (hread : Reads (client.receive r.function) reply result) :
    (idle runs).call client p name arguments = (result, idle (runs ++ ran)) := by
  have h := hread []
  rw [List.append_nil] at h
  exact call_two_way hprepare hsend hanswers honeway h

end Call

end Connection

/-! ## Calls of a compiled service -/

/-- Both sides know the same service of the same schema. -/
structure Joined (client : Client) (p : Processor) : Prop where
  schema : p.schema = client.schema
  service : p.service = client.service

section Joined

variable {client : Client} {p : Processor} {name : String} {arguments : List Value}
  {r : Client.Request} {handler : Handler} (hclosed : Compile.Closed client.schema)
  (hcoded : ∀ e ∈ client.schema.enums, e.2.Coded) (hjoined : Joined client p)
  (hprepare : client.prepare name arguments = .ok r) (hsendable : r.Sendable)
include hclosed hcoded hjoined hprepare hsendable

/-- A function with a handler: unless the arguments nest too deep for the server the handler is run
once, and its outcome is replied unless the function is oneway. -/
theorem answers_handler (hhandler : p.handlers.find? name = some handler) :
    ∃ m, Sends (client.send r) m ∧
      (¬ r.arguments.depth ≤ Codec.depthLimit → p.Rejects m) ∧
      (r.arguments.depth ≤ Codec.depthLimit →
        (r.function.oneway = true → p.Answers m
          [⟨name, .ofStruct r.function r.arguments, handler (.ofStruct r.function r.arguments)⟩]
          []) ∧
        (r.function.oneway = false → (r.function.resultFields.map FieldDef.name).Nodup →
          p.Writable r.function (handler (.ofStruct r.function r.arguments)) →
          ∃ reply, p.Answers m
              [⟨name, .ofStruct r.function r.arguments,
                handler (.ofStruct r.function r.arguments)⟩] reply ∧
            ReadsIf (p.Shallow r.function (handler (.ofStruct r.function r.arguments))) 1
              (.wire .depthLimit) (client.receive r.function) reply
              (p.replied r.function (handler (.ofStruct r.function r.arguments))))) := by
  obtain ⟨hfound, -⟩ := Client.prepare_ok hprepare
  obtain ⟨hname, hmem, service, hservice, hfunction⟩ := Client.function_ok hfound
  have hs := hclosed.regular hcoded
  obtain ⟨header, payload, hsends, hheader, hargs, -⟩ :=
    Client.send_read_or_skipped hs (hclosed.argsStruct_regular hmem) hprepare hsendable
  rw [← hjoined.schema] at hargs hservice
  rw [← hjoined.service] at hservice
  rw [← hname] at hhandler hfunction
  have htakes : p.Takes ⟨r.function.name, .call, 0⟩ r.function handler :=
    ⟨.inl rfl, ⟨service, hservice, hfunction⟩, hhandler⟩
  rw [← hname]
  refine ⟨header ++ payload, hsends, fun hdeep => ?_, fun hdepth => ⟨fun honeway => ?_,
    fun honeway hnames hwritable => ?_⟩⟩
  · exact Processor.rejects_taken hheader htakes (hargs.refuses hdeep)
  · exact (Processor.handled_oneway hheader htakes (hargs.reads hdepth) honeway).answers
  · have hresult := hclosed.resultStruct_regular hmem hnames
    rw [← hjoined.schema] at hs hresult
    obtain ⟨write, reply, hreply, hne, hsent, hread⟩ :=
      reply_carried (c := client) ⟨r.function.name, .call, 0⟩ hs hresult hjoined.schema.symm rfl
        hsendable.name hwritable
    exact ⟨reply, (Processor.handled_two_way hheader htakes (hargs.reads hdepth) honeway hreply hne
      hsent).answers, hread⟩

/-- A function without a handler is unknown to the server. -/
theorem answers_unknown (hhandler : p.handlers.find? name = none)
    (htext : (Text.Utf8.encode s!"Unknown function {name}").length ≤ Writer.maxSize) :
    ∃ m, Sends (client.send r) m ∧
      (¬ r.arguments.levels ≤ Wire.Reader.skipLimit → p.Rejects m) ∧
      (r.arguments.levels ≤ Wire.Reader.skipLimit → ∃ reply, p.Answers m [] reply ∧
        ∀ f, Reads (client.receive f) reply
          (.error (.application ⟨.unknownMethod, s!"Unknown function {name}"⟩))) := by
  obtain ⟨hfound, -⟩ := Client.prepare_ok hprepare
  obtain ⟨hname, hmem, service, hservice, hfunction⟩ := Client.function_ok hfound
  have hs := hclosed.regular hcoded
  obtain ⟨header, payload, hsends, hheader, -, hskip⟩ :=
    Client.send_read_or_skipped hs (hclosed.argsStruct_regular hmem) hprepare hsendable
  rw [← hjoined.schema, ← hjoined.service] at hservice
  rw [← hname] at hhandler hfunction htext ⊢
  have hnot : ∀ f handler, ¬ p.Takes ⟨r.function.name, .call, 0⟩ f handler := fun f handler h => by
    cases hhandler.symm.trans h.handler
  refine ⟨header ++ payload, hsends, fun hdeep => ?_, fun hlevels => ?_⟩
  · exact Processor.rejects_refused hheader hservice hnot nofun (hskip.refuses hdeep)
  · obtain ⟨reply, hne, hreply, hread⟩ := exception_carried (c := client)
      (e := ⟨.unknownMethod, s!"Unknown function {r.function.name}"⟩) ⟨r.function.name, .call, 0⟩
      hsendable.name htext
    exact ⟨reply, (Processor.handled_refused hheader hservice hnot (hskip.reads hlevels) nofun
      hne hreply).answers, hread⟩

theorem call_replied (hhandler : p.handlers.find? name = some handler)
    (hdepth : r.arguments.depth ≤ Codec.depthLimit) (honeway : r.function.oneway = false)
    (hnames : (r.function.resultFields.map FieldDef.name).Nodup)
    (hreturn : p.Returnable r.function (handler (.ofStruct r.function r.arguments)))
    (runs : List HandlerRun) :
    (Connection.idle runs).call client p name arguments =
      (p.replied r.function (handler (.ofStruct r.function r.arguments)),
        .idle (runs ++ [⟨name, .ofStruct r.function r.arguments,
          handler (.ofStruct r.function r.arguments)⟩])) := by
  obtain ⟨m, hsends, -, hanswers⟩ :=
    answers_handler hclosed hcoded hjoined hprepare hsendable hhandler
  obtain ⟨-, hreplies⟩ := hanswers hdepth
  obtain ⟨reply, hanswers, hread⟩ := hreplies honeway hnames hreturn.writable
  exact Connection.call_idle hprepare hsends hanswers honeway (hread.reads hreturn.shallow)

end Joined

/-- A call of a function with a handler runs the handler once, on the prepared arguments, and returns
what the outcome means by the declaration of the function. -/
theorem call_handled {config : Compile.Config} {library : Compile.Library}
    {root : Option Files.Path} {nodes : List Idl.Node} {client : Client} {p : Processor}
    {name : String} {arguments : List Value} {r : Client.Request} {handler : Handler}
    (hcompile : Compile.compile config library root nodes = .ok client.schema)
    (hcoded : ∀ e ∈ client.schema.enums, e.2.Coded) (hjoined : Joined client p)
    (hprepare : client.prepare name arguments = .ok r) (honeway : r.function.oneway = false)
    (hthrows : r.function.ThrowsApart) (hhandler : p.handlers.find? name = some handler)
    (hsendable : r.Sendable) (hdepth : r.arguments.depth ≤ Codec.depthLimit)
    (hreturn : p.Returnable r.function (handler (.ofStruct r.function r.arguments)))
    (runs : List HandlerRun) :
    ∃ given result, Given client.schema r.function arguments given ∧
      (Connection.idle runs).call client p name arguments =
        (result, .idle (runs ++ [⟨name, given, handler given⟩])) ∧
      Reports result (reported client.schema r.function (handler given)) := by
  obtain ⟨_, _, _, hclosed, -⟩ := Compile.compile_closed hcompile
  obtain ⟨hfound, -⟩ := Client.prepare_ok hprepare
  obtain ⟨-, hmem, -⟩ := Client.function_ok hfound
  obtain ⟨hargsapart, hthrowsapart⟩ := hclosed.functions _ hmem
  have hfields := r.function.resultFields_apart hthrows hthrowsapart
  refine ⟨.ofStruct r.function r.arguments, _, Client.given_ofStruct hargsapart hprepare,
    call_replied hclosed hcoded hjoined hprepare hsendable hhandler hdepth honeway hfields.names
      hreturn runs, ?_⟩
  rw [← hjoined.schema]
  refine Processor.reports_reported hthrows ?_ ?_ _
  · exact (hclosed.resultStruct_regular hmem hfields.names).names
  · exact r.function.resultStruct_fieldDefs hfields

/-- A server whose garden is the given trees. -/
def gardener (trees : List Value) : Processor :=
  ⟨Compile.treeSchema, "Garden", [("grow", fun _ => .ok (some (.list trees)))]⟩

theorem call_handled_grow :
    let tree : Value := .struct "Tree" []
    ∃ given, given.values[0]? = some (some tree) ∧
      (Connection.idle []).call ⟨Compile.treeSchema, "Garden"⟩ (gardener [tree]) "grow" [tree] =
        (.ok (some (.set [tree])), .idle [⟨"grow", given, .ok (some (.list [tree]))⟩]) := by
  intro tree
  let f : FunctionDef := ⟨"grow", some (.set (.named "Tree")),
    [⟨1, "seed", .named "Tree", none, none⟩], [⟨1, "missing", .named "Missing", none, none⟩], false⟩
  let handler : Handler := fun _ => .ok (some (.list [tree]))
  have hprepared : (gardener [tree]).preparedResult f (.ok (some (.list [tree]))) =
      .ok (.struct "grow_result" [("success", .set [tree])]) := by rfl
  have hreturn : (gardener [tree]).Returnable f (.ok (some (.list [tree]))) :=
    ⟨fun v hv => by cases hprepared.symm.trans hv; decide,
      fun text h => by cases hprepared.symm.trans h⟩
  have hjoined : Joined ⟨Compile.treeSchema, "Garden"⟩ (gardener [tree]) := ⟨rfl, rfl⟩
  have hrequest : Client.prepare ⟨Compile.treeSchema, "Garden"⟩ "grow" [tree] =
      .ok ⟨f, .struct "grow_args" [("seed", tree)]⟩ := rfl
  have hhandler : (gardener [tree]).handlers.find? "grow" = some handler := rfl
  obtain ⟨given, result, hgiven, hcall, hreports⟩ :=
    call_handled Compile.compile_tree (by decide) hjoined hrequest rfl (by decide) hhandler
      ⟨by decide, by decide⟩ (by decide) hreturn []
  obtain ⟨w, hw, hget⟩ := hgiven.present 0 _ tree rfl rfl
  have hprepare : Codec.prepare Compile.treeSchema (.named "Tree") tree = .ok tree := rfl
  cases hprepare.symm.trans hw
  have hresult : result = .ok (some (.set [tree])) := hreports
  exact ⟨given, hget, hresult ▸ hcall⟩

end ThriftRpc.Rpc
