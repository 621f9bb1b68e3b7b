import ThriftRpc.Proofs.Codec.Local
import ThriftRpc.Proofs.Rpc.Call

/-!
# Serving message by message

Off complete messages, one behind the other, a server takes exactly these, runs the handlers of the
functions that it knows once each and in order, and delivers for each message either nothing or one
complete message in answer (`serve_answers`). What comes of one message is `answered`; the run over
all of them is an induction with that as its step.
-/

namespace ThriftRpc.Rpc

open Wire (Output Layout MessageHeader Carried Reader Writer run_bind_ok run_bind_error
  run_tryCatch)

variable {p : Processor} {request : MessageHeader} {f : FunctionDef} {handler : Handler}

namespace Processor

/-- The bytes of a complete message for the server, and what handlers run on it: the arguments are
read if a handler takes the request, and otherwise the struct is skipped. The lengths in what is
written back fit their headers. -/
inductive Incoming (p : Processor) (request : MessageHeader) :
    List UInt8 → List HandlerRun → Prop
  | taken {f : FunctionDef} {handler : Handler} {header payload : List UInt8} {args : Value} :
    p.Takes request f handler → Layout request header →
      Codec.readStruct p.schema f.argsStruct payload = (.ok args, []) →
      (f.oneway = false → p.Writable f (handler (.ofStruct f args))) →
      Incoming p request (header ++ payload)
        [⟨request.name, .ofStruct f args, handler (.ofStruct f args)⟩]
  | dismissed {header payload : List UInt8} :
    (∀ f handler, ¬ p.Takes request f handler) → Layout request header →
      Reader.skip .struct payload = (.ok (), []) →
      (request.kind ≠ .oneway →
        (Text.Utf8.encode (refusal request).text).length ≤ Writer.maxSize) →
      Incoming p request (header ++ payload) []

structure Message (p : Processor) where
  request : MessageHeader
  bytes : List UInt8
  /-- The handlers to be run. -/
  ran : List HandlerRun
  incoming : p.Incoming request bytes ran

/-- Nobody waits for an answer: the function with the handler is oneway, or there is none and the
message is. -/
def Silent (p : Processor) (request : MessageHeader) : Prop :=
  (∃ f handler, p.Takes request f handler ∧ f.oneway = true) ∨
    ((∀ f handler, ¬ p.Takes request f handler) ∧ request.kind = .oneway)

/-- Nothing is written back, or one complete message with the name and the sequence id of the
request. -/
inductive Answered (p : Processor) (request : MessageHeader) : List UInt8 → Prop
  | silence : p.Silent request → Answered p request []
  | reply {m : List UInt8} :
    ¬ p.Silent request → Complete { request with kind := .reply } m → Answered p request m
  | exception {m : List UInt8} :
    ¬ p.Silent request → Complete { request with kind := .exception } m → Answered p request m

theorem Takes.unique {f' : FunctionDef} {handler' : Handler} (h : p.Takes request f handler)
    (h' : p.Takes request f' handler') : f = f' ∧ handler = handler' := by
  obtain ⟨service, hservice, hf⟩ := h.function
  obtain ⟨service', hservice', hf'⟩ := h'.function
  cases hservice.symm.trans hservice'
  cases hf.symm.trans hf'
  cases h.handler.symm.trans h'.handler
  exact ⟨rfl, rfl⟩

theorem Takes.mem_functions {service : ServiceDef} (h : p.Takes request f handler)
    (hservice : p.schema.service? p.service = some service) :
    f ∈ service.functions ∧ f ∈ p.schema.functions := by
  obtain ⟨service', hservice', hfunction⟩ := h.function
  cases hservice.symm.trans hservice'
  have hmem := List.mem_of_find?_eq_some hfunction
  exact ⟨hmem, List.mem_flatMap.mpr ⟨service, List.mem_of_find?_eq_some hservice, hmem⟩⟩

theorem Takes.silent_iff (h : p.Takes request f handler) : p.Silent request ↔ f.oneway = true := by
  constructor
  · rintro (⟨f', handler', h', honeway⟩ | ⟨hnot, -⟩)
    · obtain ⟨rfl, -⟩ := h.unique h'
      exact honeway
    · exact absurd h (hnot f handler)
  · exact fun honeway => .inl ⟨f, handler, h, honeway⟩

theorem silent_iff_of_not_takes (h : ∀ f handler, ¬ p.Takes request f handler) :
    p.Silent request ↔ request.kind = .oneway := by
  constructor
  · rintro (⟨f, handler, h', -⟩ | ⟨-, honeway⟩)
    · exact absurd h' (h f handler)
    · exact honeway
  · exact fun honeway => .inr ⟨h, honeway⟩

end Processor

/-! ## What is written back -/

theorem ApplicationException.write_skipped {e : ApplicationException}
    (htext : (Text.Utf8.encode e.text).length ≤ Writer.maxSize) :
    Carried e.write (Reader.skipWithin Reader.skipLimit .struct) () := by
  have hlevels : e.toValue.levels ≤ Reader.skipLimit := Nat.le_add_left 2 62
  have hcarried := (Codec.writePreparedStruct_skipped regular_empty structDef_regular
    (toValue_conforms e) (longest_toValue htext)).carried hlevels
  unfold write Codec.writeStruct
  rw [prepare_toValue]
  exact hcarried

namespace Processor

/-- Whatever the outcome, what is written back is one complete message. -/
theorem exists_reply (hclosed : Compile.Closed p.schema) (hf : f ∈ p.schema.functions)
    (hthrows : f.ThrowsApart) (hname : (Text.Utf8.encode request.name).length ≤ Writer.maxSize)
    {outcome : Except HandlerFault (Option Value)} (h : p.Writable f outcome) :
    ∃ write m, p.reply request f outcome = Serving.writing write ∧ Sends write m ∧
      (Complete { request with kind := .reply } m ∨
        Complete { request with kind := .exception } m) := by
  unfold reply
  cases hresult : p.preparedResult f outcome with
  | error text =>
    obtain ⟨m, hm, hsends⟩ := exists_complete (h := { request with kind := .exception }) hname
      (ApplicationException.write_skipped (e := ⟨.internalError, text⟩) (h.failure text hresult))
    exact ⟨_, m, rfl, hsends, .inr hm⟩
  | ok v =>
    have hlongest := h.result v hresult
    have hapart := f.resultFields_apart hthrows (hclosed.functions f hf).2
    have hd := hclosed.resultStruct_regular hf hapart.names
    obtain ⟨fields, rfl, hfields⟩ :=
      preparedResult_conforms hclosed.structs_names hd.names hresult
    have hbody := Codec.preparedStruct_skipped hclosed.complete hclosed.structs_keyed hd hfields
      hlongest
      (Value.struct f.resultStruct.name fields).levels
    obtain ⟨m, hm, hsends⟩ := exists_complete (h := { request with kind := .reply }) hname
      (hbody.carried (Nat.le_refl _))
    exact ⟨_, m, rfl, hsends, .inl hm⟩

section Serving

variable {service : ServiceDef} (hclosed : Compile.Closed p.schema)
  (hservice : p.schema.service? p.service = some service)
  (hthrows : ∀ f ∈ service.functions, f.ThrowsApart)
include hclosed hservice hthrows

theorem Incoming.answered {bytes : List UInt8} {ran : List HandlerRun}
    (h : p.Incoming request bytes ran) :
    ∃ reply, p.Answered request reply ∧ p.Handled bytes ran reply := by
  cases h with
  | @taken f handler header payload args htakes hlayout hread hfits =>
    have hheader := readHeader_reads hlayout
    have hargs := (Codec.readStruct_local p.schema f.argsStruct).reads_whole hread
    cases honeway : f.oneway with
    | true =>
      exact ⟨[], .silence (htakes.silent_iff.mpr honeway),
        handled_oneway hheader htakes hargs honeway⟩
    | false =>
      have hloud : ¬ p.Silent request := fun hsilent => by
        rw [htakes.silent_iff, honeway] at hsilent
        cases hsilent
      obtain ⟨hmem, hf⟩ := htakes.mem_functions hservice
      obtain ⟨write, m, hwrite, hsends, hm⟩ :=
        exists_reply hclosed hf (hthrows f hmem) hlayout.name_fits (hfits honeway)
      rcases hm with hm | hm
      · exact ⟨m, .reply hloud hm,
          handled_two_way hheader htakes hargs honeway hwrite hm.ne_nil hsends⟩
      · exact ⟨m, .exception hloud hm,
          handled_two_way hheader htakes hargs honeway hwrite hm.ne_nil hsends⟩
  | dismissed hnot hlayout hskip hfits =>
    have hheader := readHeader_reads hlayout
    have hstruct := ((Reader.skipWithin_local _ _).reads_whole hskip).adapt Codec.Fault.wire
    by_cases hkind : request.kind = .oneway
    · exact ⟨[], .silence ((silent_iff_of_not_takes hnot).mpr hkind),
        handled_silent hheader hservice hnot hstruct hkind⟩
    · have hloud : ¬ p.Silent request := mt (silent_iff_of_not_takes hnot).mp hkind
      obtain ⟨m, hm, hsends⟩ := exists_complete (h := { request with kind := .exception })
        hlayout.name_fits (ApplicationException.write_skipped (hfits hkind))
      exact ⟨m, .exception hloud hm,
        handled_refused hheader hservice hnot hstruct hkind hm.ne_nil hsends⟩

end Serving

/-! ## Runs -/

theorem Incoming.ne_nil {bytes : List UInt8} {ran : List HandlerRun}
    (h : p.Incoming request bytes ran) : bytes ≠ [] := by
  cases h with
  | taken _ hlayout => exact List.append_ne_nil_of_left_ne_nil hlayout.ne_nil _
  | dismissed _ hlayout => exact List.append_ne_nil_of_left_ne_nil hlayout.ne_nil _

theorem serveUpTo_succ (p : Processor) (fuel : Nat) :
    p.serveUpTo (fuel + 1) = p.process >>= fun _ => p.serveUpTo fuel := by
  show ((fun _ => ()) <$> p.process) >>= _ = _
  rw [bind_map_left]

theorem serve_of_end {s s' : Session} {fault : ProcessFault}
    (h : p.serveUpTo (s.channel.incoming.length + 1) s = (.error fault, s'))
    (hend : fault.isEnd = true) : p.serve s = (.ok (), s') := by
  have hget : (get : Serving Session) s = (.ok s, s) := rfl
  unfold serve
  rw [run_bind_ok hget, run_tryCatch, h]
  simp only [hend, if_true]
  rfl

/-- After the messages the server finds no further one. -/
theorem serveUpTo_handled {messages : List p.Message} {replies : List (List UInt8)}
    (h : List.Forall₂ (fun m reply => p.Handled m.bytes m.ran reply) messages replies) {fuel : Nat}
    (hfuel : messages.length < fuel) {out : Output} (hout : out.room = none)
    (runs : List HandlerRun) :
    p.serveUpTo fuel ⟨⟨messages.flatMap (·.bytes), out⟩, runs⟩ =
      (.error (.transport (.stream .shortItem)),
        ⟨⟨[], deliver out replies.flatten⟩, runs ++ messages.flatMap (·.ran)⟩) := by
  -- Each message takes one of the fuel, and the attempt that finds the input empty takes one more.
  induction h generalizing fuel out runs with
  | nil =>
    obtain ⟨fuel, rfl⟩ : ∃ k, fuel = k + 1 := Nat.exists_eq_add_one.mpr hfuel
    rw [serveUpTo_succ, List.flatMap_nil, List.flatMap_nil, List.append_nil,
      run_bind_error (process_idle p runs out)]
    rfl
  | @cons m reply messages replies h _ ih =>
    rw [List.length_cons] at hfuel
    obtain ⟨fuel, rfl⟩ : ∃ k, fuel = k + 1 := ⟨fuel - 1, by omega⟩
    have hfuel : messages.length < fuel := by omega
    have hdelivered : (deliver out reply).room = none := (room_deliver out reply).trans hout
    rw [serveUpTo_succ, List.flatMap_cons, run_bind_ok (h _ out runs hout), ih hfuel hdelivered,
      deliver_append, List.append_assoc]
    rfl

theorem length_le_flatMap (messages : List p.Message) :
    messages.length ≤ (messages.flatMap (·.bytes)).length := by
  induction messages with
  | nil => exact Nat.le_refl 0
  | cons m messages ih =>
    have hpos := List.length_pos_iff.mpr m.incoming.ne_nil
    rw [List.flatMap_cons, List.length_append, List.length_cons]
    omega

/-- The messages are consumed one after the other, each with what comes of it, and the end of the
input is no fault. -/
theorem serve_handled {messages : List p.Message} {replies : List (List UInt8)}
    (h : List.Forall₂ (fun m reply => p.Handled m.bytes m.ran reply) messages replies)
    {out : Output} (hout : out.room = none) (runs : List HandlerRun) :
    p.serve ⟨⟨messages.flatMap (·.bytes), out⟩, runs⟩ =
      (.ok (), ⟨⟨[], deliver out replies.flatten⟩, runs ++ messages.flatMap (·.ran)⟩) :=
  serve_of_end (serveUpTo_handled h (Nat.lt_succ_of_le (length_le_flatMap messages)) hout runs) rfl

/-- Of a compiled service: a message is consumed whole whatever follows it, the handlers to be run
are run, and it is said whether the one message in answer was written. A run over messages does so
for each of them, in order, and ends well. -/
theorem serve_answers {config : Compile.Config} {library : Compile.Library}
    {root : Option Files.Path} {nodes : List Idl.Node} {service : ServiceDef}
    (hcompile : Compile.compile config library root nodes = .ok p.schema)
    (hservice : p.schema.service? p.service = some service)
    (hthrows : ∀ f ∈ service.functions, f.ThrowsApart) :
    (∀ m : p.Message, ∃ reply, p.Answered m.request reply ∧ ∀ rest out runs, out.room = none →
      p.process ⟨⟨m.bytes ++ rest, out⟩, runs⟩ =
        (.ok (!reply.isEmpty), ⟨⟨rest, deliver out reply⟩, runs ++ m.ran⟩)) ∧
    ∀ messages : List p.Message, ∃ replies,
      List.Forall₂ (fun m reply => p.Answered m.request reply) messages replies ∧
      ∀ out runs, out.room = none → p.serve ⟨⟨messages.flatMap (·.bytes), out⟩, runs⟩ =
        (.ok (), ⟨⟨[], deliver out replies.flatten⟩, runs ++ messages.flatMap (·.ran)⟩) := by
  obtain ⟨_, _, _, hclosed, -⟩ := Compile.compile_closed hcompile
  have hone (m : p.Message) :
      ∃ reply, p.Answered m.request reply ∧ p.Handled m.bytes m.ran reply :=
    m.incoming.answered hclosed hservice hthrows
  refine ⟨hone, fun messages => ?_⟩
  choose reply hanswered hhandled using hone
  refine ⟨messages.map reply, ?_, fun out runs hout => serve_handled ?_ hout runs⟩
  · exact List.forall₂_map_right_iff.mpr (List.forall₂_same.mpr fun m _ => hanswered m)
  · exact List.forall₂_map_right_iff.mpr (List.forall₂_same.mpr fun m _ => hhandled m)

end Processor

/-- A call of a function with a handler, and a oneway message in the old layout for one without. -/
def gardenRequests : List UInt8 :=
  [0x80, 0x01, 0, 1, 0, 0, 0, 4, 103, 114, 111, 119, 0, 0, 0, 7, 12, 0, 1, 0, 0,
    0, 0, 0, 5, 112, 114, 117, 110, 101, 4, 0, 0, 0, 8, 8, 0, 1, 0, 0, 0, 9, 0]

theorem serve_answers_garden :
    let tree : Value := .struct "Tree" []
    let run : HandlerRun := ⟨"grow", ⟨["seed"], [some tree]⟩, .ok (some (.list [tree]))⟩
    ∃ reply, (Complete ⟨"grow", .reply, 7⟩ reply ∨ Complete ⟨"grow", .exception, 7⟩ reply) ∧
      (gardener [tree]).serve ⟨{ incoming := gardenRequests }, []⟩ =
        (.ok (), ⟨{ outgoing := deliver {} reply }, [run]⟩) := by
  intro tree run
  let p := gardener [tree]
  let f : FunctionDef := ⟨"grow", some (.set (.named "Tree")),
    [⟨1, "seed", .named "Tree", none, none⟩], [⟨1, "missing", .named "Missing", none, none⟩], false⟩
  let handler : Handler := fun _ => .ok (some (.list [tree]))
  let service : ServiceDef := ⟨"Garden", none, [f]⟩
  have hservice : p.schema.service? p.service = some service := rfl
  have htakes : p.Takes ⟨"grow", .call, 7⟩ f handler := ⟨.inl rfl, ⟨service, rfl, rfl⟩, rfl⟩
  have hprepared : p.preparedResult f (.ok (some (.list [tree]))) =
      .ok (.struct "grow_result" [("success", .set [tree])]) := by rfl
  have hwritable : p.Writable f (.ok (some (.list [tree]))) :=
    ⟨fun v hv => by cases hprepared.symm.trans hv; decide,
      fun text h => by cases hprepared.symm.trans h⟩
  have hgrowHeader : Layout ⟨"grow", .call, 7⟩ (gardenRequests.take 16) := .strict 0 (by decide)
  have hargs : Codec.readStruct p.schema f.argsStruct [12, 0, 1, 0, 0] =
      (.ok (.struct "grow_args" [("seed", tree)]), []) := rfl
  have hgrow : p.Incoming ⟨"grow", .call, 7⟩ (gardenRequests.take 16 ++ [12, 0, 1, 0, 0]) [run] :=
    .taken htakes hgrowHeader hargs fun _ => hwritable
  have hunknown (f : FunctionDef) (handler : Handler) :
      ¬ p.Takes ⟨"prune", .oneway, 8⟩ f handler := fun h => nomatch h.handler
  have hpruneHeader : Layout ⟨"prune", .oneway, 8⟩ ((gardenRequests.drop 21).take 14) :=
    .old (by decide)
  have hskip : Reader.skip .struct [8, 0, 1, 0, 0, 0, 9, 0] = (.ok (), []) := rfl
  have hprune : p.Incoming ⟨"prune", .oneway, 8⟩
      ((gardenRequests.drop 21).take 14 ++ [8, 0, 1, 0, 0, 0, 9, 0]) [] :=
    .dismissed hunknown hpruneHeader hskip fun h => absurd rfl h
  obtain ⟨-, hserve⟩ := Processor.serve_answers (p := p) Compile.compile_tree hservice (by decide)
  obtain ⟨replies, hanswered, hserve⟩ := hserve [⟨_, _, _, hgrow⟩, ⟨_, _, _, hprune⟩]
  obtain ⟨reply, _, hreply, hrest, rfl⟩ := List.forall₂_cons_left_iff.mp hanswered
  obtain ⟨nothing, _, hnothing, hend, rfl⟩ := List.forall₂_cons_left_iff.mp hrest
  cases List.forall₂_nil_left_iff.mp hend
  have hnone : nothing = [] := by
    cases hnothing with
    | silence => rfl
    | reply hloud | exception hloud => exact absurd (.inr ⟨hunknown, rfl⟩) hloud
  have hrun := hserve {} [] rfl
  rw [hnone] at hrun
  refine ⟨reply, ?_, hrun.trans ?_⟩
  · cases hreply with
    | silence hsilent => cases htakes.silent_iff.mp hsilent
    | reply _ h => exact .inl h
    | exception _ h => exact .inr h
  · simp [run]

end ThriftRpc.Rpc
