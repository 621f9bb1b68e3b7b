import ThriftRpc.Proofs.Codec.Prepare
import ThriftRpc.Proofs.Codec.Writable

/-!
# The codec round trip

A conforming value that can be written is read back as the same value, and no further, if it nests
within the depth left to the reader; beyond it the reader fails (`written_carried`). The induction is
over the derivation that the value conforms. In a regular schema only lengths can keep a conforming
value from being written (`write_carried`).
-/

namespace ThriftRpc.Codec

open Wire

variable {s : Schema} {ty : Ty} {v : Value} {d : StructDef}

/-- What is written for a conforming value is read back if it nests within the limit. -/
theorem written_carried (hs : s.Keyed) (h : Conforms s StructDef.InOrder ty v)
    (hw : Writable s ty v) {shape : Shape} (hr : resolve s ty = .ok shape) (n : Nat) :
    ReadBack s n ty shape.wireType v := by
  unfold ReadBack
  induction h generalizing n shape with
  | prim hr' hp =>
    cases hr.symm.trans hr'
    obtain ⟨-, hl⟩ := (writable_prim_iff hr).mp hw
    rw [readWithin_of_resolve hr]
    unfold write
    rw [hr]
    exact (primitive_carried _ hp hl).carriedIf (hp.depth_le n)
  | @member ty _ _ hr' hm =>
    cases hr.symm.trans hr'
    obtain ⟨name, hd⟩ := mem_enums_of_resolve hr
    rw [readWithin_of_resolve hr]
    unfold write
    rw [hr]
    exact (member_carried ty _ (hs.enums _ hd) hm).carriedIf (Nat.zero_le n)
  | @unknownMember ty _ hr' =>
    cases hr.symm.trans hr'
    rw [readWithin_of_resolve hr]
    unfold write
    rw [hr]
    exact (unknownMember_carried ty _ _).carriedIf (Nat.zero_le n)
  | list hr' hitems ih =>
    cases hr.symm.trans hr'
    obtain ⟨⟨shape, hshape⟩, hlen, hwitems⟩ := (Elements.writable_iff (.inl ⟨hr, rfl⟩)).mp hw
    rw [readWithin_of_resolve hr]
    unfold write
    rw [hr]
    have hread := readItems_carried hshape hlen
      (fun m v hv => ih v hv (hwitems v hv) hshape m) n
    refine .congr ?_ Value.depth_list_le
    exact hread.andThen (Reads.pure _)
  | @set _ _ items hr' hitems hapart ih =>
    cases hr.symm.trans hr'
    obtain ⟨⟨shape, hshape⟩, hlen, hwitems⟩ := (Elements.writable_iff (.inr ⟨hr, rfl⟩)).mp hw
    rw [readWithin_of_resolve hr]
    unfold write
    rw [hr]
    have hset : (some items).map (Value.set ∘ Value.distinct) = some (.set items) := by
      rw [Option.map_some, Function.comp_apply, Value.distinct_of_apart hapart]
    have hread := readItems_carried hshape hlen
      (fun m v hv => ih v hv (hwitems v hv) hshape m) n
    refine .congr ?_ Value.depth_set_le
    exact hread.andThen (hset ▸ Reads.pure _)
  | map hr' hkeys hvalues ihk ihv =>
    cases hr.symm.trans hr'
    obtain ⟨_, heq, ⟨keyShape, hk⟩, ⟨valueShape, hv⟩, hlen, hwentries⟩ := (writable_map_iff hr).mp hw
    cases heq
    rw [readWithin_of_resolve hr]
    unfold write
    rw [hr]
    have hread := readEntries_carried hk hv hlen
      (fun m e he => ihk e he (hwentries e he).1 hk m)
      (fun m e he => ihv e he (hwentries e he).2 hv m) n
    refine .congr ?_ Value.depth_map_le
    exact hread.andThen (Reads.pure _)
  | @struct _ d fields hr' horder hfields ih =>
    cases hr.symm.trans hr'
    obtain ⟨_, _, heq, hwfields⟩ := (writable_struct_iff hr).mp hw
    cases heq
    have hd := hs.structs d (mem_structDefs_of_resolve hr)
    rw [readWithin_of_resolve hr]
    unfold write
    rw [hr]
    have hread (m : Nat) : CarriedIf (∀ e ∈ fields, e.2.depth ≤ m) 0 (.wire .depthLimit)
        (writeFields d fun f => writeField s f fields)
        (do return some (← readFieldsOf d (readWithin s m))) (some (.struct d.name fields)) := by
      refine ((readFieldsOf_carried hd horder m ?_).mono (Nat.zero_le 1)).andThen (Reads.pure _)
      intro f hf v hv
      obtain ⟨shape, hshape⟩ := (hwfields f hf v hv).resolves
      exact ⟨shape, hshape, ih f hf v hv (hwfields f hf v hv) hshape m⟩
    exact (nested_carried hread n).congr Value.depth_struct_le

theorem write_carried (hs : s.Regular) (h : Conforms s StructDef.InOrder ty v) {shape : Shape}
    (hty : s.Resolves ty) (hr : resolve s ty = .ok shape) (hl : v.longest ≤ Writer.maxSize)
    (n : Nat) : ReadBack s n ty shape.wireType v :=
  written_carried hs.isKeyed h (writable_of_conforms hs.complete h hty hl) hr n

/-- A struct of a descriptor that need not be in the schema. One that nests too deep is not read to
its end. -/
theorem writePreparedStruct_carried (hs : s.Regular) (hd : d.Regular s)
    {fields : List (String × Value)} (h : FieldsConform s StructDef.InOrder d fields)
    (hl : (Value.struct d.name fields).longest ≤ Writer.maxSize) :
    CarriedIf ((Value.struct d.name fields).depth ≤ depthLimit) 1 (.wire .depthLimit)
      (writePreparedStruct s d (.struct d.name fields)) (readStruct s d) (.struct d.name fields) := by
  have hlparts := (Value.longest_le.mp hl).2
  refine (readFieldsOf_carried hd.isKeyed h.names (depthLimit - 1) ?_).congr
    ((Value.depth_le_succ (n := depthLimit - 1) rfl).trans Value.forall_parts_struct)
  intro f hf v hv
  obtain ⟨shape, hshape⟩ := exists_resolve (hd.types f hf)
  exact ⟨shape, hshape, write_carried hs (h.values f hf v hv) (hd.types f hf) hshape
    (hlparts v (Value.field_mem_parts hv)) (depthLimit - 1)⟩

/-! ## Round trip -/

/-- A value that prepares is sent, and decoding gives back what was prepared and leaves what
follows it. -/
theorem decode_encoded (hs : s.Regular) {p : Value} (hty : s.Resolves ty)
    (h : prepare s ty v = .ok p) (hdepth : p.depth ≤ depthLimit)
    (hl : p.longest ≤ Writer.maxSize) {out : Output} (hout : out.room = none) :
    ∃ bytes w, encode s ty v out = (.ok (), { out with sent := out.sent ++ bytes }) ∧
      wireType s ty = .ok w ∧ ∀ rest, decode s ty w (bytes ++ rest) = (.ok (some p), rest) := by
  obtain ⟨shape, hr⟩ := exists_resolve hty
  have hconforms := prepare_conforms (fun d hd => (hs.structs d hd).names) h
  obtain ⟨bytes, hwrites, hreads⟩ := (write_carried hs hconforms hty hr hl depthLimit).carried hdepth
  refine ⟨bytes, shape.wireType, ?_, wireType_eq hr, hreads⟩
  unfold encode
  rw [h]
  exact hwrites out hout

/-- A schema whose alias leads to a struct with a list and an enum. -/
def pointSchema : Schema where
  structs := [("Point", .ofFields "Point" .struct
    [{ index := 1, name := "at", type := .list (.prim .i32) },
      { index := 2, name := "colour", type := .named "Colour" }])]
  enums := [("Colour", ⟨"Colour", ["red", "green"]⟩)]
  typedefs := [("Points", .set (.named "Point"))]

theorem decode_encoded_points :
    let ty : Ty := .named "Points"
    let given : Value := .list [.struct "Point" [("colour", .i64 1), ("at", .list [.byte 7])]]
    let prepared : Value :=
      .set [.struct "Point" [("at", .list [.i32 7]), ("colour", .enum "Colour" "green")]]
    ∃ bytes w, encode pointSchema ty given {} = (.ok (), { sent := bytes }) ∧
      wireType pointSchema ty = .ok w ∧
      ∀ rest, decode pointSchema ty w (bytes ++ rest) = (.ok (some prepared), rest) :=
  decode_encoded (by decide) (by decide) rfl (by decide) (by decide) rfl

end ThriftRpc.Codec
