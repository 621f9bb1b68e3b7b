import ThriftRpc.Proofs.Codec.Outbound
import ThriftRpc.Proofs.Codec.Streams
import ThriftRpc.Proofs.Rpc.InStep
import ThriftRpc.Proofs.Rpc.Served

/-!
# How serving ends

A server reads a message before it does anything else about it (`process_eq`), and to read is the
only way to find that the other side has gone away. So it ends well exactly where the input ends
before a message is over (`serve_ends_iff`): behind the last message, but also anywhere inside of one.
-/

namespace ThriftRpc.Rpc

open Wire (Local MessageHeader Raises Reader RunsShort Streams Writer run_bind run_bind_ok
  run_bind_error run_tryCatch)

namespace Serving

variable {α β : Type}

theorem reading_bind (read : Codec.Reading α) (next : α → Codec.Reading β) :
    reading (read >>= next) = reading read >>= fun a => reading (next a) := by
  funext s
  rw [run_bind]
  unfold reading onChannel Channel.reading
  simp only [run_bind]
  cases read s.channel.incoming with
  | mk answer left => cases answer <;> rfl

/-- The action reads nothing, and does not fail as if the other side had gone away. -/
def Answering (act : Serving α) : Prop :=
  ∀ s, (act s).2.channel.incoming = s.channel.incoming ∧
    ∀ fault, (act s).1 = .error fault → fault.isEnd = false

namespace Answering

variable {act : Serving α} {next : α → Serving β}

theorem pure (a : α) : Answering (Pure.pure a : Serving α) :=
  fun _ => ⟨rfl, fun _ h => nomatch h⟩

theorem throw {fault : ProcessFault} (h : fault.isEnd = false) :
    Answering (throw fault : Serving α) :=
  fun _ => ⟨rfl, fun _ hfault => Except.error.inj hfault ▸ h⟩

theorem bind (h : Answering act) (hnext : ∀ a, Answering (next a)) : Answering (act >>= next) := by
  intro s
  obtain ⟨hkeeps, hfaults⟩ := h s
  rw [run_bind]
  cases hrun : act s with
  | mk answer mid =>
    rw [hrun] at hkeeps hfaults
    cases answer with
    | error fault =>
      exact ⟨hkeeps, fun e he => hfaults e (congrArg Except.error (Except.error.inj he))⟩
    | ok a => exact ⟨(hnext a mid).1.trans hkeeps, (hnext a mid).2⟩

theorem writing {write : Codec.Writing Unit} (h : Raises write Codec.Fault.Outbound) :
    Answering (writing write) := by
  intro s
  refine ⟨rfl, fun fault hfault => ?_⟩
  have hrun : (Serving.writing write s).1 = (write s.channel.outgoing).1.mapError .ofCodec := rfl
  rw [hrun] at hfault
  cases hwrite : write s.channel.outgoing with
  | mk answer out =>
    rw [hwrite] at hfault
    cases answer with
    | ok a => cases hfault
    | error e =>
      have he : e.Outbound := h hwrite
      cases hfault
      cases e with
      | wire fault => exact Wire.Fault.Outbound.isEnd he
      | _ => rfl

end Answering

end Serving

theorem writeMessage_raises (h : MessageHeader) {body : Codec.Writing Unit}
    (hbody : Raises body Codec.Fault.Outbound) :
    Raises (writeMessage h body) Codec.Fault.Outbound :=
  (Codec.wire_outbound (Writer.messageHeader_raises h)).bind fun _ =>
    hbody.bind fun _ => Codec.wire_outbound Writer.flush_raises

theorem ApplicationException.write_raises (e : ApplicationException) :
    Raises e.write Codec.Fault.Outbound := by
  unfold write Codec.writeStruct
  rw [prepare_toValue]
  exact Codec.writePreparedStruct_raises {} structDef e.toValue

/-- The session with other bytes left to be read. -/
def Session.leaving (s : Session) (left : List UInt8) : Session :=
  { s with channel.incoming := left }

namespace Processor

variable {p : Processor} {request : MessageHeader} {s s' : Session}

/-- What the server reads of a request behind its header: the arguments, if a handler takes it. -/
def body (p : Processor) (request : MessageHeader) : Codec.Reading (Option Value) :=
  if request.kind ≠ .call ∧ request.kind ≠ .oneway then do
    Reader.skip .struct
    return none
  else
    match p.schema.service? p.service with
    | none => return none
    | some service =>
      match service.function? request.name, p.handlers.find? request.name with
      | some f, some _ => some <$> Codec.readStruct p.schema f.argsStruct
      | _, _ => do
        Reader.skip .struct
        return none

def message (p : Processor) : Codec.Reading (MessageHeader × Option Value) := do
  let request ← readHeader
  return (request, ← p.body request)

/-- What the server does about a request that it has read. -/
def respond (p : Processor) (request : MessageHeader) (args : Option Value) : Serving Bool := do
  if request.kind ≠ .call ∧ request.kind ≠ .oneway then
    replyException request ⟨.invalidMessageType, s!"Expected a call, got {request.kind.text}"⟩
    return true
  let some service := p.schema.service? p.service | throw (.unknownService p.service)
  match service.function? request.name, p.handlers.find? request.name, args with
  | some f, some handler, some args =>
    let arguments := Arguments.ofStruct f args
    let outcome := handler arguments
    modify fun s => { s with runs := s.runs ++ [⟨request.name, arguments, outcome⟩] }
    if f.oneway then return false
    p.reply request f outcome
    return true
  | _, _, _ =>
    if request.kind = .oneway then return false
    replyException request ⟨.unknownMethod, s!"Unknown function {request.name}"⟩
    return true

/-- A message is read as a whole, and then answered. -/
theorem process_eq (p : Processor) :
    p.process = Serving.reading p.message >>= fun m => p.respond m.1 m.2 := by
  have hskipped {k : Option Value → Serving Bool} :
      (Serving.reading (do Reader.skip .struct; return none) >>= k) = dismiss >>= fun _ => k none := by
    rw [Serving.reading_bind, bind_assoc]
    rfl
  have hread {read : Codec.Reading Value} {k : Option Value → Serving Bool} :
      (Serving.reading (some <$> read) >>= k) = Serving.reading read >>= fun v => k (some v) := by
    rw [map_eq_pure_bind, Serving.reading_bind, bind_assoc]
    rfl
  have hbody (request : MessageHeader) :
      (Serving.reading (do return (request, ← p.body request)) >>= fun m => p.respond m.1 m.2) =
        Serving.reading (p.body request) >>= p.respond request := by
    rw [Serving.reading_bind, bind_assoc]
    rfl
  unfold process message
  rw [Serving.reading_bind, bind_assoc]
  congr 1
  funext request
  rw [hbody]
  unfold body respond
  split
  · rw [hskipped]
  cases p.schema.service? p.service with
  | none => rfl
  | some service =>
    dsimp only
    cases service.function? request.name with
    | none =>
      dsimp only
      rw [hskipped]
    | some f =>
      cases p.handlers.find? request.name with
      | none =>
        dsimp only
        rw [hskipped]
      | some handler =>
        dsimp only
        rw [hread]
        rfl

/-! ## One message -/

theorem message_streams (p : Processor) : Streams p.message Codec.Fault.Short := by
  have hskip : Streams (do Reader.skip .struct; return none : Codec.Reading (Option Value))
      Codec.Fault.Short := (Codec.wire_streams (Codec.skip_streams _)).bind fun _ => .pure _
  refine (Codec.wire_streams Reader.messageHeader_streams).bind fun request => ?_
  refine .bind ?_ fun _ => .pure _
  unfold body
  split
  · exact hskip
  split
  · exact .pure _
  split
  · exact (Codec.readStruct_streams _ _).map _
  · exact hskip

theorem message_local (p : Processor) : Local p.message := by
  have hskip : Local (do Reader.skip .struct; return none : Codec.Reading (Option Value)) :=
    ((Reader.skipWithin_local _ _).adapt _).bind fun _ => .pure _
  refine (Reader.messageHeader_local.adapt _).bind fun request => ?_
  refine .bind ?_ fun _ => .pure _
  unfold body
  split
  · exact hskip
  split
  · exact .pure _
  split
  · exact (Codec.readStruct_local _ _).map _
  · exact hskip

theorem message_nil (p : Processor) :
    p.message [] = (.error (.wire (.stream .shortItem)), []) := by
  have hheader : readHeader [] = (.error (.wire (.stream .shortItem)), []) := rfl
  exact run_bind_error hheader

theorem replyException_answering (request : MessageHeader) (e : ApplicationException) :
    Serving.Answering (replyException request e) :=
  .writing (writeMessage_raises _ e.write_raises)

theorem reply_answering (p : Processor) (request : MessageHeader) (f : FunctionDef)
    (outcome : Except HandlerFault (Option Value)) :
    Serving.Answering (p.reply request f outcome) := by
  unfold reply
  split
  · exact .writing (writeMessage_raises _ (Codec.writePreparedStruct_raises _ _ _))
  · exact replyException_answering _ _

theorem respond_answering (p : Processor) (request : MessageHeader) (args : Option Value) :
    Serving.Answering (p.respond request args) := by
  have hmodify (run : HandlerRun) : Serving.Answering
      (modify fun s => { s with runs := s.runs ++ [run] } : Serving Unit) :=
    fun _ => ⟨rfl, fun _ h => nomatch h⟩
  unfold respond
  split
  · exact (replyException_answering _ _).bind fun _ => .pure _
  split
  · split
    · refine (hmodify _).bind fun _ => ?_
      split
      · exact .pure _
      · exact (reply_answering _ _ _ _).bind fun _ => .pure _
    · split
      · exact .pure _
      · exact (replyException_answering _ _).bind fun _ => .pure _
  · exact .throw rfl

/-- The input ends before a message is over. -/
def CutShort (p : Processor) (input : List UInt8) : Prop :=
  RunsShort p.message Codec.Fault.Short input

theorem isEnd_ofCodec {e : Codec.Fault} : (ProcessFault.ofCodec e).isEnd = true ↔ e.Short := by
  cases e with
  | wire fault => exact Iff.rfl
  | _ => exact iff_of_false Bool.false_ne_true id

/-- The server reads a message and answers, or it fails to read one. -/
theorem process_run (p : Processor) (s : Session) :
    p.process s = match p.message s.channel.incoming with
      | (.ok m, left) => p.respond m.1 m.2 (s.leaving left)
      | (.error e, left) => (.error (.ofCodec e), s.leaving left) := by
  rw [process_eq, run_bind]
  unfold Serving.reading Serving.onChannel Channel.reading
  cases p.message s.channel.incoming with
  | mk answer left => cases answer <;> rfl

/-- The server finds the other side gone exactly where the input is cut short. -/
theorem process_end_iff : (∃ fault, p.process s = (.error fault, s') ∧ fault.isEnd = true) ↔
    p.CutShort s.channel.incoming ∧ s' = s.leaving [] := by
  rw [process_run]
  constructor
  · rintro ⟨fault, hrun, hend⟩
    cases hmessage : p.message s.channel.incoming with
    | mk answer left =>
      rw [hmessage] at hrun
      cases answer with
      | error e =>
        cases hrun
        have hshort := isEnd_ofCodec.mp hend
        have hleft := (message_streams p).short hmessage hshort
        rw [hleft] at hmessage ⊢
        exact ⟨⟨e, hmessage, hshort⟩, rfl⟩
      | ok m =>
        have hfault := (respond_answering p m.1 m.2 _).2 fault (congrArg Prod.fst hrun)
        rw [hfault] at hend
        cases hend
  · rintro ⟨⟨e, hmessage, hshort⟩, rfl⟩
    rw [hmessage]
    exact ⟨_, rfl, isEnd_ofCodec.mpr hshort⟩

/-- A message that is handled takes at least a byte. -/
theorem process_length_lt {replied : Bool} (h : p.process s = (.ok replied, s')) :
    s'.channel.incoming.length < s.channel.incoming.length := by
  rw [process_run] at h
  cases hmessage : p.message s.channel.incoming with
  | mk answer left =>
    rw [hmessage] at h
    cases answer with
    | error e => cases h
    | ok m =>
      have hrun : p.respond m.1 m.2 (s.leaving left) = (.ok replied, s') := h
      have hkeeps := (respond_answering p m.1 m.2 (s.leaving left)).1
      rw [hrun] at hkeeps
      rw [hkeeps]
      refine (message_local p).length_lt (fun a left hnil => ?_) hmessage
      rw [message_nil] at hnil
      cases hnil

/-! ## Runs -/

/-- From `s` the server handles some messages, one behind the other, and is in `s'` then. -/
inductive Handles (p : Processor) : Session → Session → Prop
  | refl (s : Session) : Handles p s s
  | step {s mid s' : Session} {replied : Bool} :
    p.process s = (.ok replied, mid) → Handles p mid s' → Handles p s s'

/-- There is one place where the server stops. -/
theorem Handles.unique {t t' u u' : Session} {fault fault' : ProcessFault} (h : p.Handles s t)
    (ht : p.process t = (.error fault, t')) (h' : p.Handles s u)
    (hu : p.process u = (.error fault', u')) : t = u := by
  induction h with
  | refl s =>
    cases h' with
    | refl => rfl
    | step hs _ => cases ht.symm.trans hs
  | step hs _ ih =>
    cases h' with
    | refl => cases hu.symm.trans hs
    | step hs' h' =>
      cases hs.symm.trans hs'
      exact ih ht h'

/-- With fuel for each byte the server goes on until it fails. -/
theorem serveUpTo_run {fuel : Nat} (hfuel : s.channel.incoming.length < fuel) :
    ∃ last fault s', p.Handles s last ∧ p.process last = (.error fault, s') ∧
      p.serveUpTo fuel s = (.error fault, s') := by
  induction fuel generalizing s with
  | zero => exact absurd hfuel (Nat.not_lt_zero _)
  | succ fuel ih =>
    rw [serveUpTo_succ]
    cases hrun : p.process s with
    | mk answer mid =>
      cases answer with
      | error fault => exact ⟨s, fault, mid, .refl s, hrun, run_bind_error hrun⟩
      | ok replied =>
        have hlt := process_length_lt hrun
        obtain ⟨last, fault, s', hhandles, hlast, hserve⟩ := ih (s := mid) (by omega)
        exact ⟨last, fault, s', .step hrun hhandles, hlast, (run_bind_ok hrun).trans hserve⟩

theorem serve_run (p : Processor) (s : Session) :
    ∃ last fault s', p.Handles s last ∧ p.process last = (.error fault, s') ∧
      p.serve s = (if fault.isEnd then .ok () else .error fault, s') := by
  obtain ⟨last, fault, s', hhandles, hlast, hserve⟩ := serveUpTo_run (p := p)
    (Nat.lt_succ_self s.channel.incoming.length)
  refine ⟨last, fault, s', hhandles, hlast, ?_⟩
  have hget : (get : Serving Session) s = (.ok s, s) := rfl
  unfold serve
  rw [run_bind_ok hget, run_tryCatch, hserve]
  dsimp only
  split <;> rfl

theorem serve_ok_iff : p.serve s = (.ok (), s') ↔ ∃ last, p.Handles s last ∧
    p.CutShort last.channel.incoming ∧ s' = last.leaving [] := by
  obtain ⟨last, fault, t, hhandles, hlast, hserve⟩ := serve_run p s
  rw [hserve]
  constructor
  · intro h
    have hend : fault.isEnd = true := by
      by_contra hnot
      rw [if_neg hnot] at h
      cases h
    rw [if_pos hend] at h
    cases h
    exact ⟨last, hhandles, process_end_iff.mp ⟨fault, hlast, hend⟩⟩
  · rintro ⟨last', hhandles', hcut⟩
    obtain ⟨fault', hlast', hend⟩ := process_end_iff.mpr hcut
    cases hhandles.unique hlast hhandles' hlast'
    cases hlast.symm.trans hlast'
    rw [if_pos hend]

/-! ## Inside a message -/

theorem cutShort_nil (p : Processor) : p.CutShort [] := ⟨_, message_nil p, rfl⟩

/-- A complete message is read as a whole, if the service is known. -/
theorem Incoming.message_eq {service : ServiceDef}
    (hservice : p.schema.service? p.service = some service) {m : List UInt8}
    {ran : List HandlerRun} (h : p.Incoming request m ran) :
    ∃ args, p.message m = (.ok (request, args), []) := by
  have hbody {header payload : List UInt8} {args : Option Value}
      (hheader : Wire.Layout request header) (hread : p.body request payload = (.ok args, [])) :
      p.message (header ++ payload) = (.ok (request, args), []) := by
    unfold message
    rw [run_bind_ok (readHeader_reads hheader payload), run_bind_ok hread]
    rfl
  cases h with
  | @taken f handler header payload args htakes hlayout hread hfits =>
    refine ⟨some args, hbody hlayout ?_⟩
    obtain ⟨service', hservice', hfunction⟩ := htakes.function
    have hrequest : ¬ (request.kind ≠ .call ∧ request.kind ≠ .oneway) := by
      have hkind := htakes.kind
      tauto
    unfold body
    simp only [if_neg hrequest, hservice', hfunction, htakes.handler]
    rw [map_eq_pure_bind, run_bind_ok hread]
    rfl
  | @dismissed header payload hnot hlayout hskip hfits =>
    refine ⟨none, hbody hlayout ?_⟩
    have hskipped : (do Reader.skip .struct; return none : Codec.Reading (Option Value)) payload =
        (.ok none, []) := by
      have hrun : (Reader.skip .struct : Codec.Reading Unit) payload = (.ok (), []) := by
        show (ExceptT.adapt Codec.Fault.wire (Reader.skip .struct) : Codec.Reading Unit) _ = _
        rw [Wire.run_adapt, hskip]
        rfl
      exact run_bind_ok hrun
    unfold body
    split
    · exact hskipped
    next hrequest =>
      have hkind : request.kind = .call ∨ request.kind = .oneway := by tauto
      simp only [hservice]
      cases hfunction : service.function? request.name with
      | none => exact hskipped
      | some f =>
        cases hhandler : p.handlers.find? request.name with
        | none => exact hskipped
        | some handler =>
          exact absurd ⟨hkind, ⟨service, hservice, hfunction⟩, hhandler⟩ (hnot f handler)

/-- Serving ends well exactly where the input is cut short behind messages that were handled, and
nothing is left then. That is where no message has begun, but also inside of any complete one. -/
theorem serve_ends_iff (p : Processor) :
    (∀ s s', p.serve s = (.ok (), s') ↔ ∃ last, p.Handles s last ∧
      p.CutShort last.channel.incoming ∧ s' = last.leaving []) ∧
    p.CutShort [] ∧
    ∀ service request m ran, p.schema.service? p.service = some service →
      p.Incoming request m ran → ∀ part, part <+: m → part ≠ m → p.CutShort part := by
  refine ⟨fun s s' => serve_ok_iff, cutShort_nil p, ?_⟩
  intro service request m ran hservice hincoming part hpart hne
  obtain ⟨args, hm⟩ := hincoming.message_eq hservice
  exact (message_streams p).cut hm hpart hne

end Processor

open Connection (add addRequest add_returnable calcProcessor calc_closed handler_add sum)

/-- A call of `add` with 1 and 2. -/
def addMessage : List UInt8 :=
  [0x80, 0x01, 0, 1, 0, 0, 0, 3, 97, 100, 100, 0, 0, 0, 0, 8, 0, 1, 0, 0, 0, 1, 8, 0, 2, 0, 0, 0, 2,
    0]

def addRun : HandlerRun :=
  let arguments := Arguments.ofStruct add addRequest.arguments
  ⟨"add", arguments, sum arguments⟩

theorem addMessage_incoming : calcProcessor.Incoming ⟨"add", .call, 0⟩ addMessage [addRun] := by
  have htakes : calcProcessor.Takes ⟨"add", .call, 0⟩ add sum :=
    ⟨.inl rfl, ⟨_, rfl, rfl⟩, handler_add⟩
  have hheader : Wire.Layout ⟨"add", .call, 0⟩ (addMessage.take 15) := .strict 0 (by decide)
  have hargs : Codec.readStruct calcProcessor.schema add.argsStruct (addMessage.drop 15) =
      (.ok addRequest.arguments, []) := rfl
  exact .taken htakes hheader hargs fun _ => add_returnable.writable

/-- Serving ends well although the call ends within its second argument. -/
theorem serve_cut_add :
    calcProcessor.Incoming ⟨"add", .call, 0⟩ addMessage [addRun] ∧
      addMessage.take 26 <+: addMessage ∧ addMessage.take 26 ≠ addMessage ∧
      addMessage.take 26 ≠ [] ∧
      calcProcessor.serve ⟨{ incoming := addMessage.take 26 }, []⟩ = (.ok (), ⟨{}, []⟩) :=
  ⟨addMessage_incoming, List.take_prefix _ _, by decide, by decide, rfl⟩

/-- One call is answered, and the next one is cut short. -/
theorem serve_ends_add : ∃ out,
    calcProcessor.serve ⟨{ incoming := addMessage ++ addMessage.take 26 }, []⟩ =
      (.ok (), ⟨{ outgoing := out }, [addRun]⟩) := by
  obtain ⟨hserve, -, hinside⟩ := Processor.serve_ends_iff calcProcessor
  have hcut : calcProcessor.CutShort (addMessage.take 26) :=
    hinside _ _ _ _ rfl addMessage_incoming _ (List.take_prefix _ _) (by decide)
  obtain ⟨reply, -, hhandled⟩ := addMessage_incoming.answered calc_closed rfl (by decide)
  have hprocess := hhandled (addMessage.take 26) {} [] rfl
  exact ⟨deliver {} reply, (hserve _ _).mpr ⟨_, .step hprocess (.refl _), hcut, rfl⟩⟩

end ThriftRpc.Rpc
