import ThriftRpc.Codec.Write
import ThriftRpc.Proofs.Codec.Total
import ThriftRpc.Proofs.Codec.Fields

/-!
# How writing a value fails

Writing fails for the value, for its type, or for want of room, whatever the schema and the value
are: never as if the other side had gone away (`write_raises`, `writePreparedStruct_raises`).
-/

namespace ThriftRpc.Codec

open Wire

variable {s : Schema} {ty : Ty} {v : Value} {d : StructDef}

/-- The fault does not lie on the other side. -/
def Fault.Outbound : Fault → Prop
  | wire fault => fault.Outbound
  | _ => True

/-- A writer of the wire fails alike as one of values. -/
theorem wire_outbound {w : Writer Unit} (h : Raises w Wire.Fault.Outbound) :
    Raises (w : Writing Unit) Fault.Outbound :=
  .adapt _ h

theorem resolve_outbound {fault : Fault} (h : resolve s ty = .error fault) : fault.Outbound := by
  obtain ⟨name, rfl⟩ := resolve_eq_error h
  trivial

theorem wireType_outbound : Raises (wireType s ty : Writing WireType) Fault.Outbound :=
  .liftExcept fun _ h => resolve_outbound (wireType_eq_error h)

theorem containerSize_outbound (n : Nat) :
    Raises (containerSize n : Writing Int32) Fault.Outbound := by
  refine .liftExcept fun fault h => ?_
  unfold containerSize at h
  split at h
  · cases h
  · cases h
    trivial

theorem writePrimitive_raises (ty : Ty) (p : Primitive) (v : Value) :
    Raises (writePrimitive ty p v) Fault.Outbound := by
  unfold writePrimitive
  split
  · exact wire_outbound (Writer.uint8_raises _)
  · exact wire_outbound (Writer.uint8_raises _)
  · exact wire_outbound (Writer.unsigned_raises _ _)
  · exact wire_outbound (Writer.i32_raises _)
  · exact wire_outbound (Writer.unsigned_raises _ _)
  · exact wire_outbound (Writer.unsigned_raises _ _)
  · exact wire_outbound (Writer.binary_raises _)
  · exact wire_outbound (Writer.binary_raises _)
  · exact .throw trivial

theorem writeEnum_raises (ty : Ty) (d : EnumDef) (v : Value) :
    Raises (writeEnum ty d v) Fault.Outbound := by
  unfold writeEnum
  split
  · split
    · exact wire_outbound (Writer.i32_raises _)
    · exact .throw trivial
  · split
    · exact wire_outbound (Writer.i32_raises _)
    · exact .throw trivial
  · exact .throw trivial

/-! ## Structs and containers -/

theorem elements_raises {elem : Ty} {n : Nat} {body : Writing Unit}
    (h : Raises body Fault.Outbound) : Raises (do
      Writer.listHeader ⟨← wireType s elem, ← containerSize n⟩
      body : Writing Unit) Fault.Outbound :=
  wireType_outbound.bind fun _ => (containerSize_outbound n).bind fun _ =>
    (wire_outbound (Writer.listHeader_raises _)).bind fun _ => h

theorem pairs_raises {key value : Ty} {n : Nat} {body : Writing Unit}
    (h : Raises body Fault.Outbound) : Raises (do
      Writer.mapHeader ⟨← wireType s key, ← wireType s value, ← containerSize n⟩
      body : Writing Unit) Fault.Outbound :=
  wireType_outbound.bind fun _ => wireType_outbound.bind fun _ =>
    (containerSize_outbound n).bind fun _ =>
      (wire_outbound (Writer.mapHeader_raises _)).bind fun _ => h

theorem writeItems_raises {elem : Ty} {items : List Value}
    (h : ∀ v ∈ items, Raises (write s elem v) Fault.Outbound) :
    Raises (writeItems s elem items) Fault.Outbound := by
  induction items with
  | nil => exact .pure _
  | cons v items ih =>
    rw [List.forall_mem_cons] at h
    unfold writeItems
    exact h.1.bind fun _ => ih h.2

theorem writeEntries_raises {key value : Ty} {entries : List (Value × Value)}
    (h : ∀ e ∈ entries, Raises (write s key e.1) Fault.Outbound ∧
      Raises (write s value e.2) Fault.Outbound) :
    Raises (writeEntries s key value entries) Fault.Outbound := by
  induction entries with
  | nil => exact .pure _
  | cons e entries ih =>
    rw [List.forall_mem_cons] at h
    unfold writeEntries
    exact h.1.1.bind fun _ => h.1.2.bind fun _ => ih h.2

theorem writeFields_raises {fields : List (String × Value)}
    (h : ∀ f : FieldDef, ∀ v, Table.find? f.name fields = some v →
      Raises (write s f.type v) Fault.Outbound) :
    Raises (writeFields d fun f => writeField s f fields) Fault.Outbound := by
  have hfield (f : FieldDef) : Raises (writeField s f fields) Fault.Outbound := by
    rw [writeField_eq]
    cases hv : Table.find? f.name fields with
    | none => exact .pure _
    | some v =>
      exact wireType_outbound.bind fun _ =>
        (wire_outbound (Writer.fieldHeader_raises _)).bind fun _ => h f v hv
  exact (Raises.forM fun e _ => hfield e.2).bind fun _ => wire_outbound (Writer.uint8_raises _)

theorem write_raises (s : Schema) (ty : Ty) (v : Value) :
    Raises (write s ty v) Fault.Outbound := by
  induction v using Value.induct generalizing ty with
  | h v ih =>
    unfold write
    refine (Raises.liftExcept fun fault hr => resolve_outbound hr).bind fun shape => ?_
    cases shape with
    | prim p => exact writePrimitive_raises ty p v
    | enum d => exact writeEnum_raises ty d v
    | struct d =>
      cases v with
      | struct name fields =>
        exact writeFields_raises fun f w hw => ih w (Value.field_mem_parts hw) f.type
      | _ => exact .throw trivial
    | list elem =>
      cases v with
      | list items =>
        exact elements_raises (writeItems_raises fun w hw => ih w hw elem)
      | _ => exact .throw trivial
    | set elem =>
      cases v with
      | set items =>
        exact elements_raises (writeItems_raises fun w hw => ih w hw elem)
      | _ => exact .throw trivial
    | map key value =>
      cases v with
      | map entries =>
        refine pairs_raises (writeEntries_raises fun e he => ?_)
        exact ⟨ih _ (Value.key_mem_parts he) key, ih _ (Value.value_mem_parts he) value⟩
      | _ => exact .throw trivial

theorem writePreparedStruct_raises (s : Schema) (d : StructDef) (v : Value) :
    Raises (writePreparedStruct s d v) Fault.Outbound := by
  cases v with
  | struct name fields => exact writeFields_raises fun f w _ => write_raises s f.type w
  | _ => exact .throw trivial

end ThriftRpc.Codec
