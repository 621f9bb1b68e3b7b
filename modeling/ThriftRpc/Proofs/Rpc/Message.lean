import ThriftRpc.Proofs.Codec.RoundTrip
import ThriftRpc.Proofs.Wire.Layout
import ThriftRpc.Rpc.Channel
import ThriftRpc.Rpc.Exception

/-!
# Whole messages

A message is a header and a struct; writing one flushes it. `Sends` says so of what a side writes,
and the other side reads the parts back one after the other.
-/

namespace ThriftRpc.Rpc

open Wire (Output Writes Reads Carried Layout MessageHeader Reader Writer)

/-- On an output without a bound, `w` appends `bytes` and flushes everything. -/
def Sends (w : Codec.Writing Unit) (bytes : List UInt8) : Prop :=
  ∀ out : Output, out.room = none →
    w out = (.ok (), { out with sent := out.sent ++ bytes,
                                flushed := (out.sent ++ bytes).length })

/-- The output with a message delivered; with nothing to deliver it stays as it is. -/
def deliver (out : Output) (m : List UInt8) : Output :=
  if m = [] then out else { out with sent := out.sent ++ m, flushed := (out.sent ++ m).length }

section Deliver

variable {out : Output} {m : List UInt8}

@[simp] theorem deliver_nil (out : Output) : deliver out [] = out := rfl

@[simp] theorem room_deliver (out : Output) (m : List UInt8) : (deliver out m).room = out.room := by
  unfold deliver
  split <;> rfl

theorem deliver_append (out : Output) (m m' : List UInt8) :
    deliver (deliver out m) m' = deliver out (m ++ m') := by
  by_cases hm : m = []
  · rw [hm, deliver_nil, List.nil_append]
  · by_cases hm' : m' = []
    · rw [hm', deliver_nil, List.append_nil]
    · simp [deliver, hm, hm']

theorem Sends.deliver {w : Codec.Writing Unit} (h : Sends w m) (hm : m ≠ [])
    (hout : out.room = none) : w out = (.ok (), deliver out m) := by
  rw [h out hout, Rpc.deliver, if_neg hm]

end Deliver

/-- The other side reads the header by itself, and then the body. -/
theorem readHeader_reads {h : MessageHeader} {header : List UInt8} (hheader : Layout h header) :
    Reads readHeader header h :=
  hheader.reads.adapt Codec.Fault.wire

theorem writeMessage_sends {h : MessageHeader} {body : Codec.Writing Unit} {payload : List UInt8}
    (hname : (Text.Utf8.encode h.name).length ≤ Writer.maxSize) (hbody : Writes body payload) :
    ∃ header, Layout h header ∧ Sends (writeMessage h body) (header ++ payload) := by
  obtain ⟨header, hheader, hwrites⟩ := Writer.writes_header hname
  refine ⟨header, hheader, fun out hout => ?_⟩
  have hfront : Writes (do Writer.messageHeader h; body : Codec.Writing Unit) (header ++ payload) :=
    (hwrites.adapt Codec.Fault.wire).bind hbody
  have hbind : writeMessage h body = (do
      (do Writer.messageHeader h; body : Codec.Writing Unit)
      (Writer.flush : Writer Unit)) := by
    rw [bind_assoc]
    rfl
  rw [hbind, Wire.run_bind_ok (hfront out hout)]
  rfl

/-- A header in either layout, and one struct that nests however deep. -/
def Complete (h : MessageHeader) (m : List UInt8) : Prop :=
  ∃ header payload levels, m = header ++ payload ∧ Layout h header ∧
    Reader.skipWithin levels .struct payload = (.ok (), [])

theorem Complete.ne_nil {h : MessageHeader} {m : List UInt8} (hm : Complete h m) : m ≠ [] := by
  obtain ⟨header, payload, levels, rfl, hheader, -⟩ := hm
  exact List.append_ne_nil_of_left_ne_nil hheader.ne_nil _

theorem complete_of_reads {h : MessageHeader} {header payload : List UInt8} {levels : Nat}
    (hheader : Layout h header) (hskip : Reads (Reader.skipWithin levels .struct) payload ()) :
    Complete h (header ++ payload) := by
  have hwhole := hskip []
  rw [List.append_nil] at hwhole
  exact ⟨header, payload, levels, rfl, hheader, hwhole⟩

/-- A written message is complete if its body is skipped. -/
theorem exists_complete {h : MessageHeader} {body : Codec.Writing Unit} {levels : Nat}
    (hname : (Text.Utf8.encode h.name).length ≤ Writer.maxSize)
    (hbody : Carried body (Reader.skipWithin levels .struct) ()) :
    ∃ m, Complete h m ∧ Sends (writeMessage h body) m := by
  obtain ⟨payload, hwrites, hskip⟩ := hbody
  obtain ⟨header, hheader, hsends⟩ := writeMessage_sends hname hwrites
  exact ⟨header ++ payload, complete_of_reads hheader hskip, hsends⟩

/-! ## Application exceptions -/

namespace ApplicationException

theorem regular_empty : ({} : Schema).Regular := by decide

theorem structDef_regular : structDef.Regular {} := by decide

theorem fieldDefs_eq : structDef.fieldDefs =
    [{ index := 1, name := "message", type := .prim .string },
      { index := 2, name := "type", type := .prim .i32 }] := rfl

/-- The struct of an exception is prepared already. -/
theorem prepare_toValue (e : ApplicationException) :
    Codec.prepareStruct {} structDef e.toValue = .ok e.toValue := by
  have hkind : Codec.prepare {} (.prim .i32) (.i32 e.kind.code) = .ok (.i32 e.kind.code) := by
    unfold Codec.prepare
    show Codec.orMismatch _ _ (Codec.asPrimitive .i32 (.i32 e.kind.code)) = _
    rw [Codec.asPrimitive_of_holds (.i32 e.kind.code)]
    rfl
  let fields : List (String × Value) :=
    [("message", .string e.text), ("type", .i32 e.kind.code)]
  show Codec.assemble structDef structDef.name (fields.map Prod.fst)
    (fun f => Codec.prepareField {} f fields) = .ok (.struct structDef.name fields)
  refine Codec.assemble_eq structDef_regular.names (List.Sublist.refl _) ?_
  rw [fieldDefs_eq]
  refine List.forall_mem_cons.mpr ⟨rfl, List.forall_mem_singleton.mpr ?_⟩
  exact congrArg (Functor.map some) hkind

theorem ofValue_toValue (e : ApplicationException) : ofValue e.toValue = e := by
  show (⟨.ofCode e.kind.code, e.text⟩ : ApplicationException) = e
  rw [ExceptionKind.ofCode_code]

theorem toValue_conforms (e : ApplicationException) :
    Codec.FieldsConform {} StructDef.InOrder structDef
      [("message", .string e.text), ("type", .i32 e.kind.code)] := by
  refine ⟨List.Sublist.refl _, ?_⟩
  rw [fieldDefs_eq]
  refine List.forall_mem_cons.mpr ⟨fun v hv => ?_, List.forall_mem_singleton.mpr fun v hv => ?_⟩
  · cases hv
    exact .prim rfl (.string e.text)
  · cases hv
    exact .prim rfl (.i32 e.kind.code)

section Fits

variable {e : ApplicationException} (htext : (Text.Utf8.encode e.text).length ≤ Writer.maxSize)
include htext

theorem longest_toValue : e.toValue.longest ≤ Writer.maxSize := by
  refine Value.longest_le.mpr ⟨Nat.zero_le _, List.forall_mem_cons.mpr ⟨?_, ?_⟩⟩
  · exact Value.longest_le.mpr ⟨htext, fun _ hw => nomatch hw⟩
  · exact List.forall_mem_singleton.mpr (Nat.zero_le _)

/-- An exception is sent and read back. -/
theorem write_carried : Carried e.write read e := by
  have hdepth : e.toValue.depth ≤ Codec.depthLimit := Nat.le_add_left 1 63
  have hcarried := (Codec.writePreparedStruct_carried regular_empty structDef_regular
    (toValue_conforms e) (longest_toValue htext)).carried hdepth
  have hread : Reads (pure (ofValue e.toValue) : Codec.Reading ApplicationException) [] e := by
    rw [ofValue_toValue]
    exact Reads.pure e
  unfold write Codec.writeStruct
  rw [prepare_toValue]
  exact hcarried.andThen hread

end Fits

end ApplicationException

end ThriftRpc.Rpc
