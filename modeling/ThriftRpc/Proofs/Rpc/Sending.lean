import ThriftRpc.Proofs.Codec.Prepared
import ThriftRpc.Proofs.Rpc.InStep
import ThriftRpc.Proofs.Rpc.Receiving

/-!
# Whatever is called

A call that is rejected, for the function or for what it is given, touches neither direction of the
connection. Any other call has sent one whole message before it reads, and whatever comes back it is
not rejected any more (`call_sends_whole`).
-/

namespace ThriftRpc.Rpc

open Codec (Record structBytes)
open Wire (Layout Reader Reads Writer Writes)

/-- The fault is found before anything is sent. -/
def CallFault.Rejection : CallFault → Prop
  | codec _ | unknownFunction _ _ => True
  | _ => False

theorem CallFault.ofCodec_ofValue {fault : Codec.Fault} (h : fault.OfValue) :
    (CallFault.ofCodec fault).Rejection := by
  cases fault with
  | wire _ => cases h
  | _ => trivial

namespace Client

variable {c : Client} {f : FunctionDef} {name : String} {arguments : List Value} {r : Request}

theorem prepare_errs (c : Client) (name : String) (arguments : List Value) :
    Errs (c.prepare name arguments) CallFault.Rejection := by
  have hfunction : Errs (c.function name) CallFault.Rejection := by
    unfold function
    split
    · exact .ok _
    · exact .error trivial
  unfold prepare
  refine hfunction.bind fun f => ?_
  split
  · exact .error trivial
  · refine (Errs.mapError fun fault hfault => ?_).bind fun _ => .ok _
    exact CallFault.ofCodec_ofValue (Codec.prepareStruct_errs _ _ _ fault hfault)

theorem arguments_length_le (h : c.prepare name arguments = .ok r) :
    arguments.length ≤ r.function.arguments.length := by
  unfold prepare at h
  obtain ⟨f, -, h⟩ := bind_eq_ok h
  split at h
  · cases h
  · next hlength =>
    obtain ⟨args, -, h⟩ := bind_eq_ok h
    cases h
    exact Nat.not_lt.mp hlength

/-- The struct of a request holds the arguments that are given, prepared and in order. -/
theorem prepared_arguments (hargs : Compile.FieldsApart r.function.arguments)
    (h : c.prepare name arguments = .ok r) :
    ∃ fields, r.arguments = .struct r.function.argsStruct.name fields ∧
      List.Forall₂ (fun given e => given.1 ∈ r.function.arguments ∧ given.1.name = e.1 ∧
          Codec.prepare c.schema given.1.type given.2 = .ok e.2)
        (r.function.arguments.zip arguments) fields := by
  have hdefs := r.function.argsStruct_fieldDefs hargs
  have hnames : r.function.argsStruct.fieldNames = r.function.arguments.map FieldDef.name := by
    unfold StructDef.fieldNames
    rw [hdefs]
  obtain ⟨-, hprepare⟩ := prepare_ok h
  obtain ⟨-, fields, -, hr, -, horder, -⟩ :=
    Codec.prepareStruct_ok (hnames ▸ hargs.names) hprepare
  refine ⟨fields, hr, ?_⟩
  have hsublist : (fields.map Prod.fst).Sublist (r.function.arguments.map FieldDef.name) := by
    rw [← hnames]
    exact horder
  have hfound := Table.filterMap_find? hargs.names hsublist
  rw [List.filterMap_map] at hfound
  rw [← hfound]
  refine forall₂_zip_filterMap fun i d hd => ?_
  have hmem := List.mem_of_getElem? hd
  have hcases := argument_cases hargs h hd
  rw [hr] at hcases
  rcases hcases with ⟨hnone, habsent⟩ | ⟨v, w, hv, hw, hp⟩
  · exact .inl ⟨hnone, congrArg (Option.map _) habsent⟩
  · exact .inr ⟨v, (d.name, w), hv, congrArg (Option.map _) hw, hmem, rfl, hp⟩

/-- A record for each argument that is given, prepared and in order of declaration. -/
def ArgumentRecords (s : Schema) (f : FunctionDef) (arguments : List Value)
    (records : List Record) : Prop :=
  List.Forall₂ (fun given record => ∃ p, Codec.prepare s given.1.type given.2 = .ok p ∧
    record.Written s given.1 p) (f.arguments.zip arguments) records

/-- One whole call of `f` with the arguments. -/
structure CallOf (s : Schema) (f : FunctionDef) (arguments : List Value) (m : List UInt8) :
    Prop where
  given : arguments.length ≤ f.arguments.length
  message : ∃ header records, Layout ⟨f.name, .call, 0⟩ header ∧ m = header ++ structBytes records ∧
    ArgumentRecords s f arguments records
  complete : Complete ⟨f.name, .call, 0⟩ m

section Send

variable (hclosed : Compile.Closed c.schema) (h : c.prepare name arguments = .ok r)
  (hwidest : ∀ v ∈ arguments, v.widest ≤ Writer.maxSize)
include hclosed h hwidest

theorem arguments_longest : r.arguments.longest ≤ Writer.maxSize := by
  obtain ⟨hfound, hprepare⟩ := prepare_ok h
  obtain ⟨-, hf, -⟩ := function_ok hfound
  have hargs := (hclosed.functions r.function hf).1
  have hd := hclosed.argsStruct_regular hf
  rw [Table.ofList_eq (hargs.names.sublist (map_fst_zip_sublist _ _))] at hprepare
  refine Codec.prepareStruct_longest hclosed.structs_names hd.names hprepare ?_
  exact Value.forall_parts_struct.mpr fun e he => hwidest e.2 (List.of_mem_zip he).2

theorem arguments_written :
    ∃ records, Writes (Codec.writePreparedStruct c.schema r.function.argsStruct r.arguments)
        (structBytes records) ∧
      ArgumentRecords c.schema r.function arguments records ∧
      Reads (Reader.skipWithin r.arguments.levels .struct) (structBytes records) () := by
  have hlongest := arguments_longest hclosed h hwidest
  obtain ⟨hfound, hprepare⟩ := prepare_ok h
  obtain ⟨-, hf, -⟩ := function_ok hfound
  have hargs := (hclosed.functions r.function hf).1
  have hd := hclosed.argsStruct_regular hf
  obtain ⟨fields, hr, hfields⟩ := prepared_arguments hargs h
  obtain ⟨_, hr', hconform⟩ :=
    Codec.prepareStruct_conforms hclosed.structs_names hd.names hprepare
  cases hr.symm.trans hr'
  rw [hr] at hlongest ⊢
  obtain ⟨records, hwrites, hrecords⟩ := Codec.preparedStruct_records hclosed.complete
    hclosed.structs_keyed hd hconform hlongest
  have hskipped := (Codec.preparedStruct_skipped hclosed.complete hclosed.structs_keyed hd hconform
    hlongest _).carried (Nat.le_refl _)
  refine ⟨records, hwrites, forall₂_trans ?_ hfields hrecords, hskipped.reads hwrites⟩
  rintro ⟨d, v⟩ e record ⟨hmem, hname, hp⟩ ⟨d', hmem', hname', hwritten⟩
  rw [r.function.argsStruct_fieldDefs hargs] at hmem'
  cases List.inj_on_of_nodup_map hargs.names hmem hmem' (hname.trans hname'.symm)
  exact ⟨e.2, hp, hwritten⟩

/-- What is prepared is sent as one whole call. -/
theorem send_whole (hname : (Text.Utf8.encode name).length ≤ Writer.maxSize) :
    ∃ m, CallOf c.schema r.function arguments m ∧ Sends (c.send r) m := by
  obtain ⟨rfl, -, -⟩ := function_ok (prepare_ok h).1
  obtain ⟨records, hwrites, hrecords, hskip⟩ := arguments_written hclosed h hwidest
  obtain ⟨header, hheader, hsends⟩ :=
    writeMessage_sends (h := ⟨r.function.name, .call, 0⟩) hname hwrites
  exact ⟨header ++ structBytes records, ⟨arguments_length_le h,
    ⟨header, records, hheader, rfl, hrecords⟩, complete_of_reads hheader hskip⟩, hsends⟩

end Send

/-! ## Whatever comes back -/

theorem Received.accepted {header : Wire.MessageHeader} {body left : List UInt8}
    {result : Except CallFault (Option Value)} (h : Received c f header body left result) :
    Errs result fun fault => ¬ fault.Rejection := by
  cases h with
  | other | misnamed => exact .error id
  | reply =>
    unfold outcome
    split
    · exact .error id
    · exact .ok _

/-- Waiting writes nothing, and a fault in it is no rejection. -/
theorem await_accepted (hclosed : Compile.Closed c.schema) (hf : f ∈ c.schema.functions)
    {channel after : Channel} {result : Except CallFault (Option Value)}
    (h : c.await f channel = (result, after)) :
    after.outgoing = channel.outgoing ∧ Errs result fun fault => ¬ fault.Rejection := by
  obtain ⟨left, rfl, hreceive | ⟨fault, hreceive, rfl⟩⟩ := await_cases h
  · obtain ⟨header, bytes, body, -, -, hreceived⟩ := receive_ok hreceive
    exact ⟨rfl, hreceived.accepted⟩
  · obtain ⟨w, hw⟩ := CallFault.ofCodec_inbound (receive_raises hclosed hf hreceive)
    rw [hw]
    exact ⟨rfl, .error id⟩

/-- Either the call is rejected and touches nothing, or it sends one whole request and then reads
the answer, unless it is oneway. -/
theorem call_sends_whole {config : Compile.Config} {library : Compile.Library}
    {root : Option Files.Path} {nodes : List Idl.Node}
    (hcompile : Compile.compile config library root nodes = .ok c.schema)
    (hname : (Text.Utf8.encode name).length ≤ Writer.maxSize)
    (hwidest : ∀ v ∈ arguments, v.widest ≤ Writer.maxSize) :
    (∃ fault : CallFault, fault.Rejection ∧
        ∀ channel, c.call name arguments channel = (.error fault, channel)) ∨
      ∃ f m, c.function name = .ok f ∧ f.name = name ∧ CallOf c.schema f arguments m ∧
        ∀ channel, channel.outgoing.room = none →
          let sent := { channel with outgoing := deliver channel.outgoing m }
          c.call name arguments channel =
              (if f.oneway then (.ok none, sent) else c.await f sent) ∧
            (c.call name arguments channel).2.outgoing = sent.outgoing ∧
            ∀ fault, (c.call name arguments channel).1 = .error fault → ¬ fault.Rejection := by
  obtain ⟨_, _, _, hclosed, -⟩ := Compile.compile_closed hcompile
  cases hprepare : c.prepare name arguments with
  | error fault =>
    exact .inl ⟨fault, prepare_errs c name arguments fault hprepare, call_unprepared hprepare⟩
  | ok r =>
    obtain ⟨hfound, -⟩ := prepare_ok hprepare
    obtain ⟨hsame, hf, -⟩ := function_ok hfound
    obtain ⟨m, hm, hsends⟩ := send_whole hclosed hprepare hwidest hname
    refine .inr ⟨r.function, m, hfound, hsame, hm, fun channel hroom => ?_⟩
    rw [call_sent hprepare (hsends.deliver hm.complete.ne_nil hroom)]
    refine ⟨rfl, ?_⟩
    split
    · exact ⟨rfl, fun _ h => nomatch h⟩
    · exact await_accepted hclosed hf rfl

/-- A oneway call, one with an argument that is given as a wider number and one that is left out, and
one with a text for a number. -/
theorem call_sends_whole_calc :
    let client : Client := Connection.calcClient
    (∃ m, CallOf client.schema Connection.ping [] m ∧ ∀ channel, channel.outgoing.room = none →
        client.call "ping" [] channel =
          (.ok none, { channel with outgoing := deliver channel.outgoing m })) ∧
      (∃ m, CallOf client.schema Connection.add [.i64 7] m ∧
        ∀ channel, channel.outgoing.room = none →
          (client.call "add" [.i64 7] channel).2.outgoing = deliver channel.outgoing m) ∧
      ∃ fault : CallFault, fault.Rejection ∧
        ∀ channel, client.call "add" [.string "seven"] channel = (.error fault, channel) := by
  intro client
  have hping : (client.call "ping" [] {}).1 = .ok none := rfl
  have hadd : (client.call "add" [.i64 7] {}).1 = .error (.transport (.stream .shortItem)) := rfl
  obtain ⟨fault, htext⟩ : ∃ fault : Codec.Fault,
      (client.call "add" [.string "seven"] {}).1 = .error (.codec fault) := ⟨_, rfl⟩
  have hname : (Text.Utf8.encode "add").length ≤ Writer.maxSize := by decide
  refine ⟨?_, ?_, ?_⟩
  · have hname : (Text.Utf8.encode "ping").length ≤ Writer.maxSize := by decide
    rcases call_sends_whole Connection.compile_calc hname (List.forall_mem_nil _) with
      ⟨fault, -, hcall⟩ | ⟨f, m, hf, -, hm, hsent⟩
    · rw [hcall {}] at hping
      cases hping
    · cases hf
      exact ⟨m, hm, fun channel hroom => (hsent channel hroom).1⟩
  · have hwidest : ∀ v ∈ [Value.i64 7], v.widest ≤ Writer.maxSize := by decide
    rcases call_sends_whole Connection.compile_calc hname hwidest with
      ⟨fault, hrejected, hcall⟩ | ⟨f, m, hf, -, hm, hsent⟩
    · rw [hcall {}] at hadd
      cases hadd
      cases hrejected
    · cases hf
      exact ⟨m, hm, fun channel hroom => (hsent channel hroom).2.1⟩
  · have hwidest : ∀ v ∈ [Value.string "seven"], v.widest ≤ Writer.maxSize := by decide
    rcases call_sends_whole Connection.compile_calc hname hwidest with
      hrejected | ⟨f, m, -, -, -, hsent⟩
    · exact hrejected
    · exact absurd trivial ((hsent {} rfl).2.2 _ htext)

end Client

end ThriftRpc.Rpc
