import ThriftRpc.Proofs.Codec.Skip
import ThriftRpc.Proofs.Rpc.Message
import ThriftRpc.Proofs.Rpc.Outcome

/-!
# Handling one message

What a server reads of a whole message, which handler it runs, and what it writes back, whatever
follows the message and whatever was written before (`Handled`). A message that nests too deep
stops it (`Rejects`).
-/

namespace ThriftRpc.Rpc

open Wire (Output Reads Refuses MessageHeader run_bind_ok run_bind_error)

namespace Serving

variable {α : Type} {bytes rest : List UInt8} {out : Output} {runs : List HandlerRun}

theorem reading_eq {read : Codec.Reading α} {a : α} (h : Reads read bytes a) :
    reading read ⟨⟨bytes ++ rest, out⟩, runs⟩ = (.ok a, ⟨⟨rest, out⟩, runs⟩) := by
  unfold reading onChannel Channel.reading
  rw [h rest]
  rfl

theorem reading_refused {read : Codec.Reading α} {fault : Codec.Fault} {spare : Nat}
    (h : Refuses spare read bytes fault) (out : Output) (runs : List HandlerRun) :
    ∃ s, reading read ⟨⟨bytes, out⟩, runs⟩ = (.error (.ofCodec fault), s) := by
  obtain ⟨left, -, h⟩ := h []
  rw [List.append_nil] at h
  refine ⟨⟨⟨left ++ [], out⟩, runs⟩, ?_⟩
  unfold reading onChannel Channel.reading
  rw [h]
  rfl

theorem modify_eq (g : Session → Session) (s : Session) :
    (modify g : Serving Unit) s = (.ok (), g s) := rfl

theorem writing_eq {write : Codec.Writing Unit} (h : Sends write bytes) (hbytes : bytes ≠ [])
    (hout : out.room = none) :
    writing write ⟨⟨rest, out⟩, runs⟩ = (.ok (), ⟨⟨rest, deliver out bytes⟩, runs⟩) := by
  unfold writing onChannel Channel.writing
  rw [h.deliver hbytes hout]
  rfl

end Serving

namespace Processor

variable {p : Processor} {request : MessageHeader} {f : FunctionDef} {handler : Handler}
  {service : ServiceDef} {header payload reply : List UInt8} {args : Value}

/-- A request for a function that is declared and has a handler. -/
structure Takes (p : Processor) (request : MessageHeader) (f : FunctionDef) (handler : Handler) :
    Prop where
  kind : request.kind = .call ∨ request.kind = .oneway
  function : ∃ service, p.schema.service? p.service = some service ∧
    service.function? request.name = some f
  handler : p.handlers.find? request.name = some handler

/-- What is written back for a message that no handler takes. -/
def refusal (request : MessageHeader) : ApplicationException :=
  if request.kind = .call then ⟨.unknownMethod, s!"Unknown function {request.name}"⟩
  else ⟨.invalidMessageType, s!"Expected a call, got {request.kind.text}"⟩

/-- Handling the message `m`, whatever follows it and whatever was written before, runs the handlers
`ran` and delivers `reply`; the answer says whether there is one. -/
def Handled (p : Processor) (m : List UInt8) (ran : List HandlerRun) (reply : List UInt8) : Prop :=
  ∀ rest out runs, out.room = none → p.process ⟨⟨m ++ rest, out⟩, runs⟩ =
    (.ok (!reply.isEmpty), ⟨⟨rest, deliver out reply⟩, runs ++ ran⟩)

/-- Handling the message `m` runs the handlers `ran` and writes `reply` back. -/
def Answers (p : Processor) (m : List UInt8) (ran : List HandlerRun) (reply : List UInt8) : Prop :=
  ∀ runs, ∃ replied, p.process ⟨{ incoming := m }, runs⟩ =
    (.ok replied, ⟨{ outgoing := { sent := reply, flushed := reply.length } }, runs ++ ran⟩)

/-- Handling the message `m` fails, and not because there is none. -/
def Rejects (p : Processor) (m : List UInt8) : Prop :=
  ∀ runs, ∃ fault s, p.process ⟨{ incoming := m }, runs⟩ = (.error fault, s) ∧ fault.isEnd = false

theorem Handled.answers {m : List UInt8} {ran : List HandlerRun} (h : p.Handled m ran reply) :
    p.Answers m ran reply := by
  intro runs
  have hprocess := h [] {} runs rfl
  have hdelivered : deliver {} reply = { sent := reply, flushed := reply.length } := by
    unfold deliver
    split
    · next hreply => rw [hreply]; rfl
    · rfl
  rw [List.append_nil, hdelivered] at hprocess
  exact ⟨_, hprocess⟩

/-- The parts of a message follow each other in the input. -/
theorem handled_of_parts {ran : List HandlerRun}
    (h : ∀ rest out runs, out.room = none →
      p.process ⟨⟨header ++ (payload ++ rest), out⟩, runs⟩ =
        (.ok (!reply.isEmpty), ⟨⟨rest, deliver out reply⟩, runs ++ ran⟩)) :
    p.Handled (header ++ payload) ran reply := by
  intro rest out runs hout
  rw [List.append_assoc]
  exact h rest out runs hout

variable (hheader : Reads readHeader header request)

/-! ## Messages that no handler takes -/

section Dismissed

variable (hservice : p.schema.service? p.service = some service)
  (hnot : ∀ f handler, ¬ p.Takes request f handler)
include hheader hservice hnot

theorem process_unknown (hkind : request.kind = .call ∨ request.kind = .oneway)
    (input : List UInt8) (out : Output) (runs : List HandlerRun) :
    p.process ⟨⟨header ++ input, out⟩, runs⟩ = (do
      dismiss
      if request.kind = .oneway then return false
      replyException request ⟨.unknownMethod, s!"Unknown function {request.name}"⟩
      return true : Serving Bool) ⟨⟨input, out⟩, runs⟩ := by
  have hrequest : ¬ (request.kind ≠ .call ∧ request.kind ≠ .oneway) := by tauto
  unfold process
  rw [run_bind_ok (Serving.reading_eq hheader)]
  simp only [hrequest, if_false, hservice]
  cases hfunction : service.function? request.name with
  | none => rfl
  | some f =>
    cases hhandler : p.handlers.find? request.name with
    | none => rfl
    | some handler =>
      exact absurd ⟨hkind, ⟨service, hservice, hfunction⟩, hhandler⟩ (hnot f handler)

theorem process_refused (hkind : request.kind ≠ .oneway) (input : List UInt8) (out : Output)
    (runs : List HandlerRun) :
    p.process ⟨⟨header ++ input, out⟩, runs⟩ = (do
      dismiss
      replyException request (refusal request)
      return true : Serving Bool) ⟨⟨input, out⟩, runs⟩ := by
  by_cases hcall : request.kind = .call
  · rw [process_unknown hheader hservice hnot (.inl hcall)]
    simp only [refusal, hcall, reduceCtorEq, if_true, if_false]
  · unfold process refusal
    rw [run_bind_ok (Serving.reading_eq hheader)]
    simp only [hcall, hkind, ne_eq, not_false_eq_true, and_self, if_true, if_false]

/-- The header of a message that is refused is read before the rest of it. -/
theorem rejects_refused (hkind : request.kind ≠ .oneway)
    (hskip : Refuses 0 (Wire.Reader.skip .struct : Codec.Reading Unit) payload (.wire .depthLimit)) :
    p.Rejects (header ++ payload) := by
  intro runs
  obtain ⟨s, hdismiss⟩ := Serving.reading_refused hskip {} runs
  refine ⟨.transport .depthLimit, s, ?_, rfl⟩
  rw [process_refused hheader hservice hnot hkind]
  exact run_bind_error hdismiss

variable (hskip : Reads (Wire.Reader.skip .struct : Codec.Reading Unit) payload ())
include hskip

/-- Nobody waits for an answer. -/
theorem handled_silent (hkind : request.kind = .oneway) : p.Handled (header ++ payload) [] [] := by
  refine handled_of_parts fun rest out runs _ => ?_
  have hdismiss : dismiss ⟨⟨payload ++ rest, out⟩, runs⟩ = (.ok (), ⟨⟨rest, out⟩, runs⟩) :=
    Serving.reading_eq hskip
  rw [process_unknown hheader hservice hnot (.inr hkind), run_bind_ok hdismiss, List.append_nil]
  simp only [hkind, if_true]
  rfl

/-- The message is consumed and an exception is written back. -/
theorem handled_refused (hkind : request.kind ≠ .oneway) (hreply : reply ≠ [])
    (hsends : Sends (writeMessage { request with kind := .exception } (refusal request).write)
      reply) : p.Handled (header ++ payload) [] reply := by
  refine handled_of_parts fun rest out runs hout => ?_
  have hdismiss : dismiss ⟨⟨payload ++ rest, out⟩, runs⟩ = (.ok (), ⟨⟨rest, out⟩, runs⟩) :=
    Serving.reading_eq hskip
  have hwrite : replyException request (refusal request) ⟨⟨rest, out⟩, runs⟩ =
      (.ok (), ⟨⟨rest, deliver out reply⟩, runs⟩) :=
    Serving.writing_eq hsends hreply hout
  rw [process_refused hheader hservice hnot hkind, run_bind_ok hdismiss, run_bind_ok hwrite,
    List.append_nil, List.isEmpty_eq_false_iff.mpr hreply]
  rfl

end Dismissed

/-! ## Requests that a handler takes -/

section Taken

variable (htakes : p.Takes request f handler)
include hheader htakes

theorem process_taken (input : List UInt8) (out : Output) (runs : List HandlerRun) :
    p.process ⟨⟨header ++ input, out⟩, runs⟩ =
      p.answer request f handler ⟨⟨input, out⟩, runs⟩ := by
  obtain ⟨service, hservice, hfunction⟩ := htakes.function
  have hrequest : ¬ (request.kind ≠ .call ∧ request.kind ≠ .oneway) := by
    have hkind := htakes.kind
    tauto
  unfold process
  rw [run_bind_ok (Serving.reading_eq hheader)]
  simp only [hrequest, if_false, hservice, hfunction, htakes.handler]

theorem rejects_taken
    (hargs : Refuses 1 (Codec.readStruct p.schema f.argsStruct) payload (.wire .depthLimit)) :
    p.Rejects (header ++ payload) := by
  intro runs
  obtain ⟨s, hread⟩ := Serving.reading_refused hargs {} runs
  refine ⟨.transport .depthLimit, s, ?_, rfl⟩
  rw [process_taken hheader htakes]
  exact run_bind_error hread

variable (hargs : Reads (Codec.readStruct p.schema f.argsStruct) payload args)
include hargs

theorem handled_oneway (honeway : f.oneway = true) :
    p.Handled (header ++ payload)
      [⟨request.name, .ofStruct f args, handler (.ofStruct f args)⟩] [] := by
  refine handled_of_parts fun rest out runs _ => ?_
  rw [process_taken hheader htakes]
  unfold answer
  rw [run_bind_ok (Serving.reading_eq hargs)]
  simp only [honeway, if_true]
  rfl

theorem handled_two_way (honeway : f.oneway = false) {write : Codec.Writing Unit}
    (hwrite : p.reply request f (handler (.ofStruct f args)) = Serving.writing write)
    (hreply : reply ≠ []) (hsends : Sends write reply) :
    p.Handled (header ++ payload)
      [⟨request.name, .ofStruct f args, handler (.ofStruct f args)⟩] reply := by
  refine handled_of_parts fun rest out runs hout => ?_
  rw [process_taken hheader htakes]
  unfold answer
  rw [run_bind_ok (Serving.reading_eq hargs)]
  simp only [honeway, hwrite, Bool.false_eq_true, if_false]
  rw [run_bind_ok (Serving.modify_eq _ _), run_bind_ok (Serving.writing_eq hsends hreply hout),
    List.isEmpty_eq_false_iff.mpr hreply]
  rfl

end Taken

end Processor

end ThriftRpc.Rpc
