import ThriftRpc.Proofs.Codec.Writable
import ThriftRpc.Proofs.Wire.Node

/-!
# Skipping what was written

What is written for a value is a well-formed tree on the wire that nests alike (`written_node`). So
who skips the value by its wire type alone consumes the same bytes as who reads it, if each value,
the scalars too, nests within the limit, and fails otherwise (`written_skipped`).
-/

namespace ThriftRpc.Codec

open Wire
open Value (heightAbove greatestItem greatestEntry greatestField)

variable {s : Schema} {ty : Ty} {v : Value} {d : StructDef}

/-- What is written is a tree of a value of the type `w`, as high as given for each height of its
scalars. -/
def WritesNode {ε : Type} (w : WireType) (height : Nat → Nat) (m : ExceptT ε (StateM Output) Unit) :
    Prop :=
  ∃ node : Node w, Writes m node.bytes ∧ ∀ leaf, node.height leaf = height leaf

theorem WritesNode.adapt {w : WireType} {height : Nat → Nat} {m : Writer Unit}
    (h : WritesNode w height m) : WritesNode w height (m : Writing Unit) := by
  obtain ⟨node, hwrites, hheight⟩ := h
  exact ⟨node, hwrites.adapt Fault.wire, hheight⟩

theorem number_written {w : WireType} {width : Nat} (hw : w.width? = some width) (k : Nat) :
    WritesNode w id (Writer.unsigned width k) := by
  have hlength : w.width? = some (BigEndian.toBytes width k).length := by
    rw [hw, BigEndian.length_toBytes]
  exact ⟨.scalar _ hlength, Writer.writes_bytes _, fun _ => rfl⟩

theorem text_written {data : List UInt8} (h : data.length ≤ Writer.maxSize) :
    WritesNode .string id (Writer.binary data) :=
  ⟨.text data h, Writer.writes_binary h, fun _ => rfl⟩

theorem primitive_written {p : Primitive} (h : p.Holds v) (hlen : v.length ≤ Writer.maxSize) :
    WritesNode p.wireType v.height (writePrimitive ty p v) := by
  cases h with
  | bool b => exact (number_written (w := .bool) rfl _).adapt
  | byte k => exact (number_written (w := .byte) rfl _).adapt
  | i16 k => exact (number_written (w := .i16) rfl _).adapt
  | i32 k => exact (number_written (w := .i32) rfl _).adapt
  | i64 k => exact (number_written (w := .i64) rfl _).adapt
  | double x => exact (number_written (w := .double) rfl _).adapt
  | string text => exact (text_written hlen).adapt
  | binary bytes => exact (text_written hlen).adapt

theorem member_written (ty : Ty) {d : EnumDef} {m : String} (hm : m ∈ d.members) :
    WritesNode .i32 id (writeEnum ty d (.enum d.name m)) := by
  obtain ⟨i, hi⟩ := Option.isSome_iff_exists.mp (List.isSome_idxOf?.mpr hm)
  have hwrite : writeEnum ty d (.enum d.name m) = (Writer.i32 (.ofNat i) : Writer Unit) := by
    simp only [writeEnum, EnumDef.codeOf?, hi, Option.map_some]
  rw [hwrite]
  exact (number_written (w := .i32) rfl _).adapt

/-- What is written for `v` is a tree that nests as `v` does. -/
def WrittenAs (s : Schema) (ty : Ty) (w : WireType) (v : Value) : Prop :=
  WritesNode w v.height (write s ty v)

theorem items_written {elem : Ty} {w : WireType} {items : List Value}
    (h : ∀ v ∈ items, WrittenAs s elem w v) :
    ∃ nodes : Items w items.length, Writes (writeItems s elem items) nodes.bytes ∧
      ∀ leaf, nodes.height leaf = greatestItem (heightAbove leaf) items := by
  induction items with
  | nil => exact ⟨.nil, Writes.pure, fun _ => rfl⟩
  | cons v items ih =>
    rw [List.forall_mem_cons] at h
    obtain ⟨node, hnode, hheight⟩ := h.1
    obtain ⟨nodes, hnodes, hheights⟩ := ih h.2
    refine ⟨.cons node nodes, hnode.bind hnodes, fun leaf => ?_⟩
    exact congrArg₂ max (hheight leaf) (hheights leaf)

theorem entries_written {key value : Ty} {keyWire valueWire : WireType}
    {entries : List (Value × Value)} (hkey : ∀ e ∈ entries, WrittenAs s key keyWire e.1)
    (hvalue : ∀ e ∈ entries, WrittenAs s value valueWire e.2) :
    ∃ nodes : Entries keyWire valueWire entries.length,
      Writes (writeEntries s key value entries) nodes.bytes ∧
      ∀ leaf, nodes.height leaf = greatestEntry (heightAbove leaf) entries := by
  induction entries with
  | nil => exact ⟨.nil, Writes.pure, fun _ => rfl⟩
  | cons e entries ih =>
    rw [List.forall_mem_cons] at hkey hvalue
    obtain ⟨k, hk, hkheight⟩ := hkey.1
    obtain ⟨v, hv, hvheight⟩ := hvalue.1
    obtain ⟨nodes, hnodes, hheights⟩ := ih hkey.2 hvalue.2
    refine ⟨.cons k v nodes, ?_, fun leaf => ?_⟩
    · show Writes _ (k.bytes ++ v.bytes ++ nodes.bytes)
      rw [List.append_assoc]
      exact hk.bind (hv.bind hnodes)
    · exact congrArg₂ max (congrArg₂ max (hkheight leaf) (hvheight leaf)) (hheights leaf)

theorem fields_written {fields : List (String × Value)} (hd : d.Keyed)
    (horder : d.InOrder (fields.map Prod.fst))
    (hfields : ∀ f ∈ d.fieldDefs, ∀ v, Table.find? f.name fields = some v →
      ∃ shape, resolve s f.type = .ok shape ∧ WrittenAs s f.type shape.wireType v) :
    ∃ nodes : Wire.Fields, Writes (writeFields d fun f => writeField s f fields) nodes.bytes ∧
      ∀ leaf, nodes.height leaf = greatestField (heightAbove leaf) fields := by
  -- Before the stop no field is to come, and each record in front is a field more.
  let P (done : Table String Value) (bytes : List UInt8) : Prop :=
    ∃ more, fields = done ++ more ∧ ∃ nodes : Wire.Fields, nodes.bytes = bytes ∧
      ∀ leaf, nodes.height leaf = greatestField (heightAbove leaf) more
  have hstop {stop : List UInt8} (hwrites : Writes Writer.fieldStop stop) : P fields stop :=
    ⟨[], (List.append_nil _).symm, .stop, (Writer.writes_wireType .stop).unique hwrites,
      fun _ => rfl⟩
  have hkeeps : ∀ f ∈ d.fieldDefs, Keeps s fields P f := by
    rintro f hf v w header payload _ done hv hw - hheader hpayload - ⟨more, hmore, nodes, rfl, h⟩
    obtain ⟨shape, hshape, node, hnode, hheight⟩ := hfields f hf v hv
    cases hw.symm.trans (wireType_eq hshape)
    cases hpayload.unique hnode
    cases hheader.unique (Writer.writes_fieldHeader _)
    refine ⟨(f.name, v) :: more, by rw [hmore, List.append_assoc]; rfl, .field f.index node nodes,
      rfl, fun leaf => congrArg₂ max (hheight leaf) (h leaf)⟩
  obtain ⟨bytes, hwrites, more, hmore, nodes, rfl, hheight⟩ :=
    writes_fields hd horder (fun f hf v hv => by
      obtain ⟨shape, hshape, node, hnode, -⟩ := hfields f hf v hv
      exact ⟨_, node.bytes, wireType_eq hshape, wireType_ne_stop shape, hnode⟩) hstop hkeeps
  cases hmore
  exact ⟨nodes, hwrites, hheight⟩

theorem elements_written {elem : Ty} {items : List Value} {shape : Shape}
    (hr : resolve s elem = .ok shape) (hl : items.length ≤ Writer.maxSize)
    (hitems : ∀ v ∈ items, WrittenAs s elem shape.wireType v) :
    ∃ nodes : Items shape.wireType items.length,
      Writes (do Writer.listHeader ⟨← wireType s elem, ← containerSize items.length⟩
                 writeItems s elem items : Writing Unit) (Node.list _ hl nodes).bytes ∧
        ∀ leaf, nodes.height leaf = greatestItem (heightAbove leaf) items := by
  obtain ⟨nodes, hnodes, hheights⟩ := items_written hitems
  rw [wireType_eq hr, containerSize_eq hl]
  exact ⟨nodes, ((Writer.writes_listHeader ⟨shape.wireType, _⟩).adapt Fault.wire).bind hnodes,
    hheights⟩

theorem pairs_written {key value : Ty} {entries : List (Value × Value)}
    {keyShape valueShape : Shape} (hk : resolve s key = .ok keyShape)
    (hv : resolve s value = .ok valueShape) (hl : entries.length ≤ Writer.maxSize)
    (hkeys : ∀ e ∈ entries, WrittenAs s key keyShape.wireType e.1)
    (hvalues : ∀ e ∈ entries, WrittenAs s value valueShape.wireType e.2) :
    ∃ nodes : Entries keyShape.wireType valueShape.wireType entries.length,
      Writes (do
        Writer.mapHeader ⟨← wireType s key, ← wireType s value, ← containerSize entries.length⟩
        writeEntries s key value entries : Writing Unit) (Node.map _ _ hl nodes).bytes ∧
        ∀ leaf, nodes.height leaf = greatestEntry (heightAbove leaf) entries := by
  obtain ⟨nodes, hnodes, hheights⟩ := entries_written hkeys hvalues
  rw [wireType_eq hk, wireType_eq hv, containerSize_eq hl]
  exact ⟨nodes, ((Writer.writes_mapHeader ⟨keyShape.wireType, valueShape.wireType, _⟩).adapt
    Fault.wire).bind hnodes, hheights⟩

theorem written_node (hs : ∀ d ∈ s.structDefs, d.Keyed) (h : Conforms s StructDef.InOrder ty v)
    (hw : Writable s ty v) {shape : Shape} (hr : resolve s ty = .ok shape) :
    WrittenAs s ty shape.wireType v := by
  induction h generalizing shape with
  | prim hr' hp =>
    cases hr.symm.trans hr'
    obtain ⟨-, hl⟩ := (writable_prim_iff hr).mp hw
    unfold WrittenAs write
    rw [hr]
    exact primitive_written hp hl
  | @member ty _ _ hr' hm =>
    cases hr.symm.trans hr'
    unfold WrittenAs write
    rw [hr]
    exact member_written ty hm
  | unknownMember hr' =>
    cases hr.symm.trans hr'
    unfold WrittenAs write
    rw [hr]
    exact (number_written (w := .i32) rfl _).adapt
  | list hr' hitems ih =>
    cases hr.symm.trans hr'
    obtain ⟨⟨shape, hshape⟩, hlen, hwitems⟩ := (Elements.writable_iff (.inl ⟨hr, rfl⟩)).mp hw
    obtain ⟨nodes, hnodes, hheights⟩ :=
      elements_written hshape hlen fun v hv => ih v hv (hwitems v hv) hshape
    unfold WrittenAs write
    rw [hr]
    exact ⟨.list _ hlen nodes, hnodes, fun leaf => congrArg Nat.succ (hheights leaf)⟩
  | set hr' hitems hapart ih =>
    cases hr.symm.trans hr'
    obtain ⟨⟨shape, hshape⟩, hlen, hwitems⟩ := (Elements.writable_iff (.inr ⟨hr, rfl⟩)).mp hw
    obtain ⟨nodes, hnodes, hheights⟩ :=
      elements_written hshape hlen fun v hv => ih v hv (hwitems v hv) hshape
    unfold WrittenAs write
    rw [hr]
    exact ⟨.set _ hlen nodes, hnodes, fun leaf => congrArg Nat.succ (hheights leaf)⟩
  | map hr' hkeys hvalues ihk ihv =>
    cases hr.symm.trans hr'
    obtain ⟨_, heq, ⟨keyShape, hk⟩, ⟨valueShape, hv⟩, hlen, hwentries⟩ := (writable_map_iff hr).mp hw
    cases heq
    obtain ⟨nodes, hnodes, hheights⟩ :=
      pairs_written hk hv hlen (fun e he => ihk e he (hwentries e he).1 hk)
        (fun e he => ihv e he (hwentries e he).2 hv)
    unfold WrittenAs write
    rw [hr]
    exact ⟨.map _ _ hlen nodes, hnodes, fun leaf => congrArg Nat.succ (hheights leaf)⟩
  | @struct _ d fields hr' horder hfields ih =>
    cases hr.symm.trans hr'
    obtain ⟨_, _, heq, hwfields⟩ := (writable_struct_iff hr).mp hw
    cases heq
    obtain ⟨nodes, hnodes, hheights⟩ :=
      fields_written (hs d (mem_structDefs_of_resolve hr)) horder fun f hf v hv => by
        obtain ⟨shape, hshape⟩ := (hwfields f hf v hv).resolves
        exact ⟨shape, hshape, ih f hf v hv (hwfields f hf v hv) hshape⟩
    unfold WrittenAs write
    rw [hr]
    exact ⟨.struct nodes, hnodes, fun leaf => congrArg Nat.succ (hheights leaf)⟩

/-! ## Skipping -/

/-- What is written for `v` is skipped if it takes at most `n` levels. -/
def SkippedOver (s : Schema) (n : Nat) (ty : Ty) (w : WireType) (v : Value) : Prop :=
  CarriedIf (v.levels ≤ n) 0 .depthLimit (write s ty v) (Reader.skipWithin n w) ()

theorem WrittenAs.skipped {w : WireType} (h : WrittenAs s ty w v) (n : Nat) :
    SkippedOver s n ty w v := by
  obtain ⟨node, hwrites, hheight⟩ := h
  have hlevels : v.levels = node.levels := v.levels_eq_height.trans (hheight 1).symm
  exact ⟨node.bytes, hwrites, hlevels ▸ node.skipped n⟩

/-- What is written for a conforming value is skipped by its wire type if it takes no more levels
than there are. -/
theorem written_skipped (hs : ∀ d ∈ s.structDefs, d.Keyed) (h : Conforms s StructDef.InOrder ty v)
    (hw : Writable s ty v) {shape : Shape} (hr : resolve s ty = .ok shape) (n : Nat) :
    SkippedOver s n ty shape.wireType v :=
  (written_node hs h hw hr).skipped n

theorem write_skipped (hs : s.Regular) (h : Conforms s StructDef.InOrder ty v) {shape : Shape}
    (hty : s.Resolves ty) (hr : resolve s ty = .ok shape) (hl : v.longest ≤ Writer.maxSize)
    (n : Nat) : SkippedOver s n ty shape.wireType v :=
  written_skipped hs.isKeyed.structs h (writable_of_conforms hs.complete h hty hl) hr n

section Prepared

/-! The struct of a descriptor that need not be in the schema. -/

variable {fields : List (String × Value)} (hs : s.Complete) (hkeyed : ∀ d ∈ s.structDefs, d.Keyed)
  (hd : d.Regular s) (h : FieldsConform s StructDef.InOrder d fields)
  (hl : (Value.struct d.name fields).longest ≤ Writer.maxSize)

include hs hkeyed hd h hl

theorem preparedFields_written : ∀ f ∈ d.fieldDefs, ∀ v, Table.find? f.name fields = some v →
    ∃ shape, resolve s f.type = .ok shape ∧ WrittenAs s f.type shape.wireType v := by
  intro f hf v hv
  obtain ⟨shape, hshape⟩ := exists_resolve (hd.types f hf)
  exact ⟨shape, hshape, written_node hkeyed (h.values f hf v hv)
    (writable_of_conforms hs (h.values f hf v hv) (hd.types f hf)
      ((Value.longest_le.mp hl).2 v (Value.field_mem_parts hv))) hshape⟩

theorem preparedStruct_skipped (n : Nat) :
    CarriedIf ((Value.struct d.name fields).levels ≤ n) 0 .depthLimit
      (writePreparedStruct s d (.struct d.name fields)) (Reader.skipWithin n .struct) () := by
  obtain ⟨nodes, hnodes, hheights⟩ :=
    fields_written hd.isKeyed h.names (preparedFields_written hs hkeyed hd h hl)
  have hlevels : (Value.struct d.name fields).levels = (Node.struct nodes).levels :=
    (Value.levels_eq_height _).trans (congrArg Nat.succ (hheights 1).symm)
  exact ⟨(Node.struct nodes).bytes, hnodes, hlevels ▸ (Node.struct nodes).skipped n⟩

end Prepared

theorem writePreparedStruct_skipped (hs : s.Regular) (hd : d.Regular s)
    {fields : List (String × Value)} (h : FieldsConform s StructDef.InOrder d fields)
    (hl : (Value.struct d.name fields).longest ≤ Writer.maxSize) :
    CarriedIf ((Value.struct d.name fields).levels ≤ Reader.skipLimit) 0 .depthLimit
      (writePreparedStruct s d (.struct d.name fields)) (Reader.skip .struct) () :=
  preparedStruct_skipped hs.complete hs.isKeyed.structs hd h hl Reader.skipLimit

end ThriftRpc.Codec
