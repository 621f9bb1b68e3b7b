import ThriftRpc.Proofs.Codec.BesideSkip
import ThriftRpc.Proofs.Codec.Records
import ThriftRpc.Proofs.Codec.Total
import ThriftRpc.Proofs.Rpc.Request

/-!
# Whatever arrives

The client takes the next message off whatever arrives in answer to its call. However that was made,
unless it fails to be read it is taken whole (`Received.complete`), and what the client returns has
the type that the function declares and is carried by a field of a reply to it (`call_safe`).
-/

namespace ThriftRpc.Rpc

open Codec (Conforms MadeOf Record structBytes)
open Wire (Covered Layout MessageHeader Raises Reader run_bind_eq_ok)

/-- A fault of the input is one of the transport. -/
theorem CallFault.ofCodec_inbound {fault : Codec.Fault} (h : fault.Inbound) :
    ∃ w, CallFault.ofCodec fault = .transport w := by
  cases fault with
  | wire w => exact ⟨w, rfl⟩
  | _ => cases h

namespace Client

variable {c : Client} {f : FunctionDef} {name : String} {arguments : List Value} {r : Request}

/-- Waits for the answer to a call of `f`. -/
def await (c : Client) (f : FunctionDef) : Calling (Option Value) := do
  let reply ← ExceptT.adapt CallFault.ofCodec (Channel.reading (c.receive f))
  liftExcept reply

/-- A call that is not prepared touches nothing. -/
theorem call_unprepared {fault : CallFault} (h : c.prepare name arguments = .error fault)
    (channel : Channel) : c.call name arguments channel = (.error fault, channel) := by
  unfold call
  rw [h]
  rfl

/-- A call whose request is sent has read nothing yet. -/
theorem call_sent {channel : Channel} {out : Wire.Output}
    (hprepare : c.prepare name arguments = .ok r)
    (hsend : c.send r channel.outgoing = (.ok (), out)) :
    c.call name arguments channel =
      if r.function.oneway then (.ok none, { channel with outgoing := out })
      else c.await r.function { channel with outgoing := out } := by
  have hwrite : ExceptT.adapt CallFault.ofCodec (Channel.writing (c.send r)) channel =
      (.ok (), { channel with outgoing := out }) := by
    rw [Wire.run_adapt]
    unfold Channel.writing
    rw [hsend]
    rfl
  unfold call
  rw [hprepare]
  refine (Wire.run_bind_ok hwrite).trans ?_
  split <;> rfl

/-- What the client makes of what it reads, or of a fault in reading. -/
theorem await_cases {channel after : Channel} {outcome : Except CallFault (Option Value)}
    (h : c.await f channel = (outcome, after)) :
    ∃ left, after = { channel with incoming := left } ∧
      (c.receive f channel.incoming = (.ok outcome, left) ∨
        ∃ fault, c.receive f channel.incoming = (.error fault, left) ∧
          outcome = .error (.ofCodec fault)) := by
  unfold await at h
  rw [Wire.run_bind, Wire.run_adapt] at h
  unfold Channel.reading at h
  cases hreceive : c.receive f channel.incoming with
  | mk answer left =>
    rw [hreceive] at h
    cases answer with
    | ok result =>
      cases result <;> (cases h; exact ⟨left, rfl, .inl rfl⟩)
    | error fault =>
      cases h
      exact ⟨left, rfl, .inr ⟨fault, rfl, rfl⟩⟩

/-! ## Messages -/

/-- How a message becomes an outcome: `body` stands behind its header, and `left` behind its
struct. -/
inductive Received (c : Client) (f : FunctionDef) (header : MessageHeader)
    (body left : List UInt8) : Except CallFault (Option Value) → Prop
  | other {e : ApplicationException} :
    header.kind ≠ .reply → receiveOther f header.kind body = (.ok e, left) →
      Received c f header body left (.error (.application e))
  | misnamed {result : Value} {e : ApplicationException} :
    header.kind = .reply → header.name ≠ f.name →
      Codec.readStruct c.schema f.resultStruct body = (.ok result, left) →
      Received c f header body left (.error (.application e))
  | reply {result : Value} :
    header.kind = .reply → header.name = f.name →
      Codec.readStruct c.schema f.resultStruct body = (.ok result, left) →
      Received c f header body left (outcome f result)

theorem receive_ok {input left : List UInt8} {result : Except CallFault (Option Value)}
    (h : c.receive f input = (.ok result, left)) :
    ∃ header bytes body, Layout header bytes ∧ input = bytes ++ body ∧
      Received c f header body left result := by
  obtain ⟨header, body, hheader, hrest⟩ := run_bind_eq_ok h
  obtain ⟨bytes, rfl, hlayout⟩ := Reader.messageHeader_takes (Wire.run_adapt_eq_ok hheader)
  refine ⟨header, bytes, body, hlayout, rfl, ?_⟩
  by_cases hkind : header.kind = .reply
  · simp only [hkind, ne_eq, not_true_eq_false, if_false] at hrest
    obtain ⟨value, mid, hread, hrest⟩ := run_bind_eq_ok hrest
    by_cases hname : header.name = f.name
    · simp only [hname, not_true_eq_false, if_false] at hrest
      cases hrest
      exact .reply hkind hname hread
    · simp only [hname, not_false_eq_true, if_true] at hrest
      cases hrest
      exact .misnamed hkind hname hread
  · simp only [hkind, ne_eq, not_false_eq_true, if_true] at hrest
    obtain ⟨e, mid, hother, hpure⟩ := run_bind_eq_ok hrest
    cases hpure
    exact .other hkind hother

/-- The struct of a message that is no reply is one struct on the wire. -/
theorem receiveOther_covered (f : FunctionDef) (kind : MessageKind) :
    Covered (receiveOther f kind)
      (Reader.skipWithin (Reader.skipLimit + Codec.depthLimit) .struct) := by
  unfold receiveOther
  split
  · exact (Codec.readStruct_covered {} _).andThen fun _ => .pure _ ()
  · exact ((Reader.skipWithin_covered (Nat.le_add_right _ _) .struct).adapt _).andThen
      fun _ => .pure _ ()

/-- Whatever the message, it is taken whole. -/
theorem Received.complete {header : MessageHeader} {bytes body left : List UInt8}
    {result : Except CallFault (Option Value)} (h : Received c f header body left result)
    (hlayout : Layout header bytes) : ∃ m, Complete header m ∧ bytes ++ body = m ++ left := by
  have hstruct : ∃ u, Reader.skipWithin (Reader.skipLimit + Codec.depthLimit) .struct body =
      (.ok u, left) := by
    cases h with
    | other _ h => exact receiveOther_covered f header.kind h
    | misnamed _ _ h | reply _ _ h => exact Codec.readStruct_covered c.schema f.resultStruct h
  obtain ⟨u, hskip⟩ := hstruct
  obtain ⟨payload, rfl, hreads⟩ := Reader.skipWithin_local _ .struct hskip
  exact ⟨bytes ++ payload, complete_of_reads hlayout hreads, (List.append_assoc _ _ _).symm⟩

theorem receiveOther_raises (f : FunctionDef) (kind : MessageKind) :
    Raises (receiveOther f kind) Codec.Fault.Inbound := by
  unfold receiveOther
  split
  · have hread : Raises (Codec.readStruct {} ApplicationException.structDef) Codec.Fault.Inbound :=
      Codec.readStruct_inbound ApplicationException.regular_empty.complete
        ApplicationException.structDef_regular.types
    exact hread.bind fun _ => .pure _
  · have hskip : Raises (Reader.skip .struct : Codec.Reading Unit) Codec.Fault.Inbound :=
      .adapt _ (Reader.skipWithin_raises _ _)
    exact hskip.bind fun _ => .pure _

/-- What arrives is at fault where it cannot be read. -/
theorem receive_raises (hclosed : Compile.Closed c.schema) (hf : f ∈ c.schema.functions) :
    Raises (c.receive f) Codec.Fault.Inbound := by
  have hheader : Raises readHeader Codec.Fault.Inbound := .adapt _ Reader.messageHeader_raises
  refine hheader.bind fun header => ?_
  have hresult : Raises (Codec.readStruct c.schema f.resultStruct) Codec.Fault.Inbound :=
    Codec.readStruct_inbound hclosed.complete fun d hd =>
      hclosed.result_resolves hf (mem_of_mem_ofFields hd)
  by_cases hkind : header.kind = .reply
  · simp only [hkind, ne_eq, not_true_eq_false, if_false]
    refine hresult.bind fun result => ?_
    split <;> exact .pure _
  · simp only [hkind, ne_eq, not_false_eq_true, if_true]
    exact (receiveOther_raises f header.kind).bind fun _ => .pure _

/-! ## Replies -/

/-- A reply to a call of `f` with these records, each of which is taken by itself. -/
structure ReplyTo (s : Schema) (f : FunctionDef) (records : List Record) (m : List UInt8) :
    Prop where
  message : ∃ header sequence, Layout ⟨f.name, .reply, sequence⟩ header ∧
    m = header ++ structBytes records
  taken : ∀ r ∈ records, r.wireType ≠ .stop ∧ r.Taken s f.resultStruct

/-- Any outcome but an exception of the application comes of a reply to the function. -/
theorem Received.replied {header : MessageHeader} {bytes body left : List UInt8}
    {result : Except CallFault (Option Value)} (h : Received c f header body left result)
    (hlayout : Layout header bytes) (hd : f.resultStruct.Keyed)
    (happlication : ∀ e, result ≠ .error (.application e)) :
    ∃ records m v, bytes ++ body = m ++ left ∧ ReplyTo c.schema f records m ∧
      MadeOf c.schema f.resultStruct records v ∧ outcome f v = result := by
  cases h with
  | other => exact absurd rfl (happlication _)
  | misnamed => exact absurd rfl (happlication _)
  | @reply v hkind hname hread =>
    obtain ⟨name, kind, sequence⟩ := header
    cases hkind
    cases hname
    obtain ⟨records, rfl, htaken, hmade⟩ := Codec.records_of_readStruct hd hread
    exact ⟨records, bytes ++ structBytes records, v, (List.append_assoc _ _ _).symm,
      ⟨⟨bytes, sequence, hlayout, rfl⟩, htaken⟩, hmade, rfl⟩

section Awaiting

variable {channel after : Channel} {result : Except CallFault (Option Value)}
  (hclosed : Compile.Closed c.schema) (hf : f ∈ c.schema.functions)
  (h : c.await f channel = (result, after))
  (htransport : ∀ fault, result ≠ .error (.transport fault))
include hclosed hf h htransport

/-- Where it is not the transport that fails, the outcome is made of a message. -/
theorem await_message :
    ∃ header bytes body, Layout header bytes ∧ channel.incoming = bytes ++ body ∧
      Received c f header body after.incoming result := by
  obtain ⟨left, rfl, hreceive | ⟨fault, hreceive, rfl⟩⟩ := await_cases h
  · exact receive_ok hreceive
  · obtain ⟨w, hw⟩ := CallFault.ofCodec_inbound (receive_raises hclosed hf hreceive)
    exact absurd (congrArg Except.error hw) (htransport w)

theorem await_replied (hd : f.resultStruct.Keyed)
    (happlication : ∀ e, result ≠ .error (.application e)) :
    ∃ records m v, channel.incoming = m ++ after.incoming ∧ ReplyTo c.schema f records m ∧
      MadeOf c.schema f.resultStruct records v ∧ outcome f v = result := by
  obtain ⟨header, bytes, body, hlayout, hinput, hreceived⟩ := await_message hclosed hf h htransport
  rw [hinput]
  exact hreceived.replied hlayout hd happlication

end Awaiting

section Outcome

variable {s : Schema} {records : List Record} {v w : Value}
  (hapart : Compile.FieldsApart f.resultFields) (hmade : MadeOf s f.resultStruct records v)
include hapart hmade

/-- A result is carried as one, and no exception is. -/
theorem carried_of_outcome_ok (hthrows : f.ThrowsApart) (h : outcome f v = .ok (some w)) :
    ∃ ty, f.returns = some ty ∧
      (∃ r ∈ records, r.Carries s { index := 0, name := "success", type := ty } w) ∧
      ∀ d ∈ f.throws, ∀ r ∈ records, ∀ e, ¬ r.Carries s d e := by
  have hdefs := f.resultStruct_fieldDefs hapart
  unfold outcome at h
  split at h
  · cases h
  · next hnone =>
    have habsent := List.findSome?_eq_none_iff.mp hnone
    obtain ⟨d, hd, hname, hcarried⟩ := hmade.present "success" w (Except.ok.inj h)
    rw [hdefs] at hd
    rcases List.mem_append.mp hd with hd | hd
    · obtain ⟨ty, hty, rfl⟩ := Option.map_eq_some_iff.mp (Option.mem_toList.mp hd)
      refine ⟨ty, hty, hcarried, fun d hd => hmade.absent d ?_ (habsent d hd)⟩
      exact hdefs ▸ List.mem_append_right _ hd
    · exact absurd hname (hthrows d hd).1

theorem carried_of_outcome_declared (h : outcome f v = .error (.declared w)) :
    ∃ d ∈ f.throws, ∃ r ∈ records, r.Carries s d w := by
  have hdefs := f.resultStruct_fieldDefs hapart
  unfold outcome at h
  split at h
  · next e hsome =>
    cases h
    obtain ⟨d, hd, hget⟩ := List.exists_of_findSome?_eq_some hsome
    obtain ⟨d', hd', hname, hcarried⟩ := hmade.present d.name w hget
    rw [hdefs] at hd'
    cases List.inj_on_of_nodup_map hapart.names (List.mem_append_right _ hd) hd' hname.symm
    exact ⟨d, hd, hcarried⟩
  · cases h

end Outcome

/-- Whatever arrives, a result is what a reply to the call carries for it when that carries no
exception, a declared exception is what it carries for one, and unless the transport fails exactly
one message has been read. -/
theorem call_safe {config : Compile.Config} {library : Compile.Library} {root : Option Files.Path}
    {nodes : List Idl.Node} (hcompile : Compile.compile config library root nodes = .ok c.schema)
    {channel after : Channel} {out : Wire.Output} {result : Except CallFault (Option Value)}
    (hprepare : c.prepare name arguments = .ok r)
    (hsend : c.send r channel.outgoing = (.ok (), out)) (honeway : r.function.oneway = false)
    (hthrows : r.function.ThrowsApart) (hcall : c.call name arguments channel = (result, after)) :
    (∀ v, result = .ok (some v) → ∃ records m ty, channel.incoming = m ++ after.incoming ∧
        ReplyTo c.schema r.function records m ∧
        (∀ d ∈ r.function.throws, ∀ record ∈ records, ∀ e, ¬ record.Carries c.schema d e) ∧
        r.function.returns = some ty ∧
        (∃ record ∈ records, record.Carries c.schema ⟨0, "success", ty, none, none⟩ v) ∧
        Conforms c.schema StructDef.Declared ty v) ∧
      (∀ e, result = .error (.declared e) → ∃ records m, channel.incoming = m ++ after.incoming ∧
        ReplyTo c.schema r.function records m ∧
        ∃ d ∈ r.function.throws, (∃ record ∈ records, record.Carries c.schema d e) ∧
          Conforms c.schema StructDef.Declared d.type e) ∧
      ((∀ fault, result ≠ .error (.transport fault)) →
        ∃ header m, Complete header m ∧ channel.incoming = m ++ after.incoming) := by
  obtain ⟨_, _, _, hclosed, -⟩ := Compile.compile_closed hcompile
  obtain ⟨-, hf, -⟩ := function_ok (prepare_ok hprepare).1
  have hapart := r.function.resultFields_apart hthrows (hclosed.functions r.function hf).2
  have hkeyed := (hclosed.resultStruct_regular hf hapart.names).isKeyed
  have hnames := hclosed.structs_names
  rw [call_sent hprepare hsend, if_neg (by rw [honeway]; decide)] at hcall
  refine ⟨?_, ?_, fun htransport => ?_⟩
  · rintro v rfl
    obtain ⟨records, m, w, hm, hreply, hmade, hout⟩ :=
      await_replied hclosed hf hcall (fun _ h => nomatch h) hkeyed fun _ h => nomatch h
    obtain ⟨ty, hty, ⟨record, hrecord, hcarries⟩, hnone⟩ :=
      carried_of_outcome_ok hapart hmade hthrows hout
    exact ⟨records, m, ty, hm, hreply, hnone, hty, ⟨record, hrecord, hcarries⟩,
      hcarries.conforms hnames⟩
  · rintro e rfl
    obtain ⟨records, m, w, hm, hreply, hmade, hout⟩ :=
      await_replied hclosed hf hcall (fun _ h => nomatch h) hkeyed fun _ h => nomatch h
    obtain ⟨d, hd, record, hrecord, hcarries⟩ := carried_of_outcome_declared hapart hmade hout
    exact ⟨records, m, hm, hreply, d, hd, ⟨record, hrecord, hcarries⟩, hcarries.conforms hnames⟩
  · obtain ⟨header, bytes, body, hlayout, hinput, hreceived⟩ :=
      await_message hclosed hf hcall htransport
    obtain ⟨m, hm, heq⟩ := hreceived.complete hlayout
    exact ⟨header, m, hm, hinput.trans heq⟩

/-- A reply in the old layout with another sequence id: a number in the place of the exception, two
equal trees as the result, and a field that is not declared. A byte follows it. -/
def gardenReply : List UInt8 :=
  [0, 0, 0, 4, 103, 114, 111, 119, 2, 0, 0, 0, 9, 8, 0, 1, 0, 0, 0, 5,
    14, 0, 0, 12, 0, 0, 0, 2, 0, 0, 2, 0, 7, 1, 0, 255]

theorem call_safe_garden :
    let client : Client := ⟨Compile.treeSchema, "Garden"⟩
    let forest : Value := .set [.struct "Tree" []]
    ∃ r out after, client.prepare "grow" [.struct "Tree" []] = .ok r ∧
      client.send r {} = (.ok (), out) ∧
      client.call "grow" [.struct "Tree" []] { incoming := gardenReply } =
        (.ok (some forest), after) ∧
      ∃ records m ty, gardenReply = m ++ after.incoming ∧
        ReplyTo client.schema r.function records m ∧
        (∀ d ∈ r.function.throws, ∀ record ∈ records, ∀ e, ¬ record.Carries client.schema d e) ∧
        r.function.returns = some ty ∧
        (∃ record ∈ records, record.Carries client.schema ⟨0, "success", ty, none, none⟩ forest) ∧
        Conforms client.schema StructDef.Declared ty forest := by
  intro client forest
  let r : Request := ⟨⟨"grow", some (.set (.named "Tree")), [⟨1, "seed", .named "Tree", none, none⟩],
    [⟨1, "missing", .named "Missing", none, none⟩], false⟩,
    .struct "grow_args" [("seed", .struct "Tree" [])]⟩
  have hprepare : client.prepare "grow" [.struct "Tree" []] = .ok r := rfl
  obtain ⟨out, hsend⟩ : ∃ out, client.send r {} = (.ok (), out) := ⟨_, rfl⟩
  obtain ⟨after, hcall⟩ : ∃ after, client.call "grow" [.struct "Tree" []]
      { incoming := gardenReply } = (.ok (some forest), after) := ⟨_, rfl⟩
  have hsafe := call_safe Compile.compile_tree hprepare hsend rfl (by decide) hcall
  exact ⟨r, out, after, hprepare, hsend, hcall, hsafe.1 forest rfl⟩

end Client

end ThriftRpc.Rpc
