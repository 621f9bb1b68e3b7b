import ThriftRpc.Proofs.Rpc.Message
import ThriftRpc.Proofs.Rpc.Outcome

/-!
# Replies

A reply is written as one message, from which the client takes what the outcome of the handler
stands for.
-/

namespace ThriftRpc.Rpc

open Wire (Reads ReadsIf MessageHeader Writer)

variable {c : Client} {p : Processor} {f : FunctionDef} {request : MessageHeader}
  {header payload : List UInt8}

namespace Client

theorem receive_reply {result : Value} {ok : Prop} {spare : Nat} {fault : Codec.Fault}
    (hheader : Reads readHeader header request) (hname : request.name = f.name)
    (hkind : request.kind = .reply)
    (hresult : ReadsIf ok spare fault (Codec.readStruct c.schema f.resultStruct) payload result) :
    ReadsIf ok spare fault (c.receive f) (header ++ payload) (outcome f result) := by
  refine .after hheader ?_
  simp only [hname, hkind, ne_eq, not_true_eq_false, if_false]
  exact hresult.andThen (Reads.pure _)

theorem receive_exception {e : ApplicationException} (hheader : Reads readHeader header request)
    (hkind : request.kind = .exception) (he : Reads ApplicationException.read payload e) :
    Reads (c.receive f) (header ++ payload) (.error (.application e)) := by
  refine hheader.bind ?_
  simp only [hkind, receiveOther, ne_eq, reduceCtorEq, not_false_eq_true, if_true]
  exact he.andThen (Reads.pure _)

end Client

/-- An exception in answer to a request is what any call that reads it returns. -/
theorem exception_carried (request : MessageHeader) {e : ApplicationException}
    (hname : (Text.Utf8.encode request.name).length ≤ Writer.maxSize)
    (htext : (Text.Utf8.encode e.text).length ≤ Writer.maxSize) :
    ∃ m, m ≠ [] ∧ Sends (writeMessage { request with kind := .exception } e.write) m ∧
      ∀ f, Reads (c.receive f) m (.error (.application e)) := by
  obtain ⟨payload, hwrites, hread⟩ := ApplicationException.write_carried htext
  obtain ⟨header, hheader, hsends⟩ :=
    writeMessage_sends (h := { request with kind := .exception }) hname hwrites
  exact ⟨header ++ payload, List.append_ne_nil_of_left_ne_nil hheader.ne_nil _, hsends,
    fun f => Client.receive_exception (readHeader_reads hheader) rfl hread⟩

namespace Processor

/-- Every length of what is sent back for an outcome fits its header. -/
structure Writable (p : Processor) (f : FunctionDef)
    (outcome : Except HandlerFault (Option Value)) : Prop where
  result : ∀ v, p.preparedResult f outcome = .ok v → v.longest ≤ Writer.maxSize
  failure : ∀ text, p.preparedResult f outcome = .error text →
    (Text.Utf8.encode text).length ≤ Writer.maxSize

/-- The result struct of an outcome nests no deeper than the client reads. -/
def Shallow (p : Processor) (f : FunctionDef) (outcome : Except HandlerFault (Option Value)) :
    Prop :=
  ∀ v, p.preparedResult f outcome = .ok v → v.depth ≤ Codec.depthLimit

end Processor

/-- What is sent back for an outcome is within the limits of the wire. -/
structure Processor.Returnable (p : Processor) (f : FunctionDef)
    (outcome : Except HandlerFault (Option Value)) : Prop where
  result : ∀ v, p.preparedResult f outcome = .ok v →
    v.depth ≤ Codec.depthLimit ∧ v.longest ≤ Writer.maxSize
  failure : ∀ text, p.preparedResult f outcome = .error text →
    (Text.Utf8.encode text).length ≤ Writer.maxSize

theorem Processor.Returnable.writable {outcome : Except HandlerFault (Option Value)}
    (h : p.Returnable f outcome) : p.Writable f outcome :=
  ⟨fun v hv => (h.result v hv).2, h.failure⟩

theorem Processor.Returnable.shallow {outcome : Except HandlerFault (Option Value)}
    (h : p.Returnable f outcome) : p.Shallow f outcome :=
  fun v hv => (h.result v hv).1

/-- The result struct of an outcome conforms to its descriptor. -/
theorem Processor.preparedResult_conforms (hs : ∀ d ∈ p.schema.structDefs, d.fieldNames.Nodup)
    (hd : f.resultStruct.fieldNames.Nodup) {outcome : Except HandlerFault (Option Value)}
    {v : Value} (h : p.preparedResult f outcome = .ok v) :
    ∃ fields, v = .struct f.resultStruct.name fields ∧
      Codec.FieldsConform p.schema StructDef.InOrder f.resultStruct fields := by
  unfold preparedResult at h
  obtain ⟨result, -, h⟩ := bind_eq_ok h
  exact Codec.prepareStruct_conforms hs hd (mapError_eq_ok h)

/-- The reply to a request is read if the result is not too deep; else something is left of it. -/
theorem reply_carried (request : MessageHeader) (hs : p.schema.Regular)
    (hd : f.resultStruct.Regular p.schema) (hschema : c.schema = p.schema)
    (hrequest : request.name = f.name)
    (hname : (Text.Utf8.encode request.name).length ≤ Writer.maxSize)
    {outcome : Except HandlerFault (Option Value)} (h : p.Writable f outcome) :
    ∃ write m, p.reply request f outcome = Serving.writing write ∧ m ≠ [] ∧ Sends write m ∧
      ReadsIf (p.Shallow f outcome) 1 (.wire .depthLimit) (c.receive f) m (p.replied f outcome) := by
  unfold Processor.reply Processor.replied Processor.Shallow
  cases hresult : p.preparedResult f outcome with
  | error text =>
    obtain ⟨m, hm, hsends, hreads⟩ :=
      exception_carried (c := c) (e := ⟨.internalError, text⟩) request hname
        (h.failure text hresult)
    exact ⟨_, m, rfl, hm, hsends, fun _ => hreads f, fun hnot => absurd (fun _ hv => nomatch hv) hnot⟩
  | ok v =>
    have hlongest := h.result v hresult
    obtain ⟨fields, rfl, hfields⟩ :=
      Processor.preparedResult_conforms (fun d hd => (hs.structs d hd).names) hd.names hresult
    obtain ⟨payload, hwrites, hread⟩ := Codec.writePreparedStruct_carried hs hd hfields hlongest
    obtain ⟨header, hheader, hsends⟩ :=
      writeMessage_sends (h := { request with kind := .reply }) hname hwrites
    have hne : header ++ payload ≠ [] := List.append_ne_nil_of_left_ne_nil hheader.ne_nil _
    have hreceive := Client.receive_reply (readHeader_reads hheader) hrequest rfl (hschema ▸ hread)
    refine ⟨_, header ++ payload, rfl, hne, hsends, hreceive.congr ⟨fun hall => ?_, ?_⟩⟩
    · exact hall _ rfl
    · rintro hdepth v hv
      cases hv
      exact hdepth

end ThriftRpc.Rpc
