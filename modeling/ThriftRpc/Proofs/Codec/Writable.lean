import ThriftRpc.Proofs.Codec.ReadBack
import ThriftRpc.Proofs.Wire.Breaking

/-!
# What can be written

`write` gets to the end of a value exactly if the value is `Writable` (`write_writesIf`). Of a value
without parts either all is written or nothing; of the others the header is out before the parts
are looked at, if it can be made up (`Opening`).
-/

namespace ThriftRpc.Codec

open Wire

variable {s : Schema} {ty elem : Ty} {v : Value} {d : StructDef}

/-- `write` gets to the end of the value: every type in it resolves, that of the elements of an
empty container too, what stands under the name of a field is a value of its type, and every length
fits its header. -/
inductive Writable (s : Schema) : Ty → Value → Prop
  | prim {ty : Ty} {p : Primitive} {v : Value} :
    resolve s ty = .ok (.prim p) → p.Holds v → v.length ≤ Writer.maxSize → Writable s ty v
  | member {ty : Ty} {d : EnumDef} {name m : String} :
    resolve s ty = .ok (.enum d) → m ∈ d.members → Writable s ty (.enum name m)
  | unknownMember {ty : Ty} {d : EnumDef} :
    resolve s ty = .ok (.enum d) → Writable s ty (.i32 Value.unknownCode)
  | list {ty elem : Ty} {shape : Shape} {items : List Value} :
    resolve s ty = .ok (.list elem) → resolve s elem = .ok shape →
      items.length ≤ Writer.maxSize → (∀ v ∈ items, Writable s elem v) →
      Writable s ty (.list items)
  | set {ty elem : Ty} {shape : Shape} {items : List Value} :
    resolve s ty = .ok (.set elem) → resolve s elem = .ok shape →
      items.length ≤ Writer.maxSize → (∀ v ∈ items, Writable s elem v) →
      Writable s ty (.set items)
  | map {ty key value : Ty} {keyShape valueShape : Shape} {entries : List (Value × Value)} :
    resolve s ty = .ok (.map key value) → resolve s key = .ok keyShape →
      resolve s value = .ok valueShape → entries.length ≤ Writer.maxSize →
      (∀ e ∈ entries, Writable s key e.1) → (∀ e ∈ entries, Writable s value e.2) →
      Writable s ty (.map entries)
  | struct {ty : Ty} {d : StructDef} {name : String} {fields : List (String × Value)} :
    resolve s ty = .ok (.struct d) →
      (∀ f ∈ d.fieldDefs, ∀ v, Table.find? f.name fields = some v → Writable s f.type v) →
      Writable s ty (.struct name fields)

/-- The value under the name of each declared field can be written as the field. -/
def FieldsWritable (s : Schema) (d : StructDef) (fields : List (String × Value)) : Prop :=
  ∀ f ∈ d.fieldDefs, ∀ v, Table.find? f.name fields = some v → Writable s f.type v

theorem Writable.resolves (h : Writable s ty v) : ∃ shape, resolve s ty = .ok shape := by
  cases h with
  | prim hr | member hr | unknownMember hr | list hr | set hr | map hr | struct hr => exact ⟨_, hr⟩

/-- A value of the kind that a shape asks for; scalars are told apart elsewhere. -/
def admits : Shape → Value → Bool
  | .prim _, _ | .enum _, _ => true
  | .struct _, .struct _ _ => true
  | .list _, .list _ => true
  | .set _, .set _ => true
  | .map _ _, .map _ => true
  | _, _ => false

theorem Writable.admits (h : Writable s ty v) {shape : Shape} (hr : resolve s ty = .ok shape) :
    admits shape v = true := by
  cases h with
  | prim hr' | member hr' | unknownMember hr' | list hr' | set hr' | map hr' | struct hr' =>
    cases hr.symm.trans hr'
    rfl

theorem write_of_not_admits {shape : Shape} (hr : resolve s ty = .ok shape)
    (h : admits shape v = false) : write s ty v = throw (.mismatch ty.text v.kind) := by
  unfold write
  rw [hr]
  cases shape <;> cases v <;> first | rfl | cases h

/-- The elements of a list or a set. -/
def Elements (s : Schema) (ty : Ty) (v : Value) (elem : Ty) (items : List Value) : Prop :=
  (resolve s ty = .ok (.list elem) ∧ v = .list items) ∨
    (resolve s ty = .ok (.set elem) ∧ v = .set items)

theorem Elements.write_eq {items : List Value} (h : Elements s ty v elem items) :
    write s ty v = (do
      Writer.listHeader ⟨← wireType s elem, ← containerSize items.length⟩
      writeItems s elem items) := by
  unfold write
  rcases h with ⟨hr, rfl⟩ | ⟨hr, rfl⟩
  · rw [hr]
    rfl
  · rw [hr]
    rfl

theorem Elements.parts_eq {items : List Value} (h : Elements s ty v elem items) :
    v.parts = items := by
  rcases h with ⟨-, rfl⟩ | ⟨-, rfl⟩ <;> rfl

theorem Elements.length_eq {items : List Value} (h : Elements s ty v elem items) :
    v.length = items.length := by
  rcases h with ⟨-, rfl⟩ | ⟨-, rfl⟩ <;> rfl

theorem Elements.writable_iff {items : List Value} (h : Elements s ty v elem items) :
    Writable s ty v ↔ (∃ shape, resolve s elem = .ok shape) ∧
      items.length ≤ Writer.maxSize ∧ ∀ v ∈ items, Writable s elem v := by
  constructor
  · intro hw
    rcases h with ⟨hr, rfl⟩ | ⟨hr, rfl⟩
    · cases hw with
      | list hr' he hl hi => cases hr.symm.trans hr'; exact ⟨⟨_, he⟩, hl, hi⟩
      | prim hr' => cases hr.symm.trans hr'
    · cases hw with
      | set hr' he hl hi => cases hr.symm.trans hr'; exact ⟨⟨_, he⟩, hl, hi⟩
      | prim hr' => cases hr.symm.trans hr'
  · rintro ⟨⟨shape, he⟩, hl, hi⟩
    rcases h with ⟨hr, rfl⟩ | ⟨hr, rfl⟩
    · exact .list hr he hl hi
    · exact .set hr he hl hi

theorem writable_map_iff {key value : Ty} (hr : resolve s ty = .ok (.map key value)) :
    Writable s ty v ↔ ∃ entries, v = .map entries ∧ (∃ shape, resolve s key = .ok shape) ∧
      (∃ shape, resolve s value = .ok shape) ∧ entries.length ≤ Writer.maxSize ∧
      ∀ e ∈ entries, Writable s key e.1 ∧ Writable s value e.2 := by
  constructor
  · intro h
    cases h with
    | map hr' hk hv hl hks hvs =>
      cases hr.symm.trans hr'
      exact ⟨_, rfl, ⟨_, hk⟩, ⟨_, hv⟩, hl, fun e he => ⟨hks e he, hvs e he⟩⟩
    | prim hr' | member hr' | unknownMember hr' | list hr' | set hr' | struct hr' =>
      cases hr.symm.trans hr'
  · rintro ⟨entries, rfl, ⟨_, hk⟩, ⟨_, hv⟩, hl, he⟩
    exact .map hr hk hv hl (fun e h => (he e h).1) fun e h => (he e h).2

theorem writable_struct_iff (hr : resolve s ty = .ok (.struct d)) :
    Writable s ty v ↔ ∃ name fields, v = .struct name fields ∧ FieldsWritable s d fields := by
  constructor
  · intro h
    cases h with
    | struct hr' hf => cases hr.symm.trans hr'; exact ⟨_, _, rfl, hf⟩
    | prim hr' | member hr' | unknownMember hr' | list hr' | set hr' | map hr' =>
      cases hr.symm.trans hr'
  · rintro ⟨name, fields, rfl, hf⟩
    exact .struct hr hf

/-- Where every name resolves the lengths alone decide. -/
theorem writable_of_conforms (hs : s.Complete) {layout : StructDef → List String → Prop}
    (h : Conforms s layout ty v) (hty : s.Resolves ty) (hl : v.longest ≤ Writer.maxSize) :
    Writable s ty v := by
  induction h with
  | prim hr hp => exact .prim hr hp (Value.longest_le.mp hl).1
  | member hr hm => exact .member hr hm
  | unknownMember hr => exact .unknownMember hr
  | list hr _ ih =>
    have helem := resolve_complete hs hty hr
    obtain ⟨hlen, hlparts⟩ := Value.longest_le.mp hl
    obtain ⟨shape, hshape⟩ := exists_resolve helem
    exact .list hr hshape hlen fun v hv => ih v hv helem (hlparts v hv)
  | set hr _ _ ih =>
    have helem := resolve_complete hs hty hr
    obtain ⟨hlen, hlparts⟩ := Value.longest_le.mp hl
    obtain ⟨shape, hshape⟩ := exists_resolve helem
    exact .set hr hshape hlen fun v hv => ih v hv helem (hlparts v hv)
  | map hr _ _ ihk ihv =>
    obtain ⟨hkey, hvalue⟩ := resolve_complete hs hty hr
    obtain ⟨hlen, hlparts⟩ := Value.longest_le.mp hl
    obtain ⟨keyShape, hk⟩ := exists_resolve hkey
    obtain ⟨valueShape, hv⟩ := exists_resolve hvalue
    exact .map hr hk hv hlen (fun e he => ihk e he hkey (hlparts _ (Value.key_mem_parts he)))
      fun e he => ihv e he hvalue (hlparts _ (Value.value_mem_parts he))
  | struct hr _ _ ih =>
    have hd := resolve_complete hs hty hr
    have hlparts := (Value.longest_le.mp hl).2
    exact .struct hr fun f hf v hv =>
      ih f hf v hv (hd f hf) (hlparts v (Value.field_mem_parts hv))

/-! ## Scalars -/

theorem writable_prim_iff {q : Primitive} (hr : resolve s ty = .ok (.prim q)) :
    Writable s ty v ↔ q.Holds v ∧ v.length ≤ Writer.maxSize := by
  constructor
  · intro h
    cases h with
    | prim hr' hv hl => cases hr.symm.trans hr'; exact ⟨hv, hl⟩
    | member hr' | unknownMember hr' | list hr' | set hr' | map hr' | struct hr' =>
      cases hr.symm.trans hr'
  · exact fun h => .prim hr h.1 h.2

theorem writable_enum_iff {d : EnumDef} (hr : resolve s ty = .ok (.enum d)) :
    Writable s ty v ↔
      (∃ name m, v = .enum name m ∧ m ∈ d.members) ∨ v = .i32 Value.unknownCode := by
  constructor
  · intro h
    cases h with
    | member hr' hm => cases hr.symm.trans hr'; exact .inl ⟨_, _, rfl, hm⟩
    | unknownMember hr' => exact .inr rfl
    | prim hr' | list hr' | set hr' | map hr' | struct hr' => cases hr.symm.trans hr'
  · rintro (⟨name, m, rfl, hm⟩ | rfl)
    · exact .member hr hm
    · exact .unknownMember hr

/-- The writer gets to its end, or it fails before its first byte. -/
def AllOrNothing (ok : Prop) (w : Writing Unit) : Prop :=
  (ok ∧ ∃ bytes, Writes w bytes) ∨ (¬ ok ∧ Breaks w [])

namespace AllOrNothing

variable {ok ok' : Prop} {w : Writing Unit}

theorem writesIf (h : AllOrNothing ok w) : WritesIf ok 0 w := by
  rcases h with ⟨hok, bytes, hw⟩ | ⟨hnot, hw⟩
  · exact .of_writes hw hok
  · exact .of_breaks hw (Nat.zero_le _) hnot

theorem congr (h : AllOrNothing ok w) (hiff : ok' ↔ ok) : AllOrNothing ok' w := by
  rwa [AllOrNothing, hiff]

theorem throw (e : Fault) (hnot : ¬ ok) : AllOrNothing ok (throw e : Writing Unit) :=
  .inr ⟨hnot, .throw e⟩

theorem binary (data : List UInt8) :
    AllOrNothing (data.length ≤ Writer.maxSize) (Writer.binary data : Writer Unit) := by
  by_cases hl : data.length ≤ Writer.maxSize
  · obtain ⟨bytes, hw, -⟩ := Carried.binary hl
    exact .inl ⟨hl, bytes, hw.adapt Fault.wire⟩
  · refine .inr ⟨hl, Breaks.adapt Fault.wire ?_⟩
    unfold Writer.binary
    rw [if_pos (by omega)]
    exact (Breaks.throw _).andThen

end AllOrNothing

theorem writePrimitive_of_not_holds {q : Primitive} (h : ¬ q.Holds v) :
    writePrimitive ty q v = throw (.mismatch ty.text v.kind) := by
  cases q <;> cases v <;> first | rfl | exact absurd (by constructor) h

theorem primitive_allOrNothing (ty : Ty) (q : Primitive) (v : Value) :
    AllOrNothing (q.Holds v ∧ v.length ≤ Writer.maxSize) (writePrimitive ty q v) := by
  by_cases h : q.Holds v
  · refine .congr ?_ (and_iff_right h)
    have number {w : Writer Unit} {bytes : List UInt8} (hl : v.length = 0) (hw : Writes w bytes) :
        AllOrNothing (v.length ≤ Writer.maxSize) (w : Writing Unit) :=
      .inl ⟨hl ▸ Nat.zero_le _, bytes, hw.adapt Fault.wire⟩
    cases h with
    | bool b => exact number rfl (Writer.writes_bytes _)
    | byte n => exact number rfl (Writer.writes_bytes _)
    | i16 n => exact number rfl (Writer.writes_bytes _)
    | i32 n => exact number rfl (Writer.writes_bytes _)
    | i64 n => exact number rfl (Writer.writes_bytes _)
    | double x => exact number rfl (Writer.writes_bytes _)
    | string text => exact .binary _
    | binary bytes => exact .binary _
  · rw [writePrimitive_of_not_holds h]
    exact .throw _ fun hv => h hv.1

theorem enum_allOrNothing (ty : Ty) (d : EnumDef) (v : Value) :
    AllOrNothing ((∃ name m, v = .enum name m ∧ m ∈ d.members) ∨ v = .i32 Value.unknownCode)
      (writeEnum ty d v) := by
  have code (n : Int32) : ∃ bytes, Writes (Writer.i32 n : Writing Unit) bytes :=
    ⟨_, (Writer.writes_bytes _).adapt Fault.wire⟩
  cases v with
  | enum name m =>
    cases hm : d.members.idxOf? m with
    | some i =>
      have hmem : m ∈ d.members := List.isSome_idxOf?.mp (by rw [hm]; rfl)
      simp only [writeEnum, EnumDef.codeOf?, hm, Option.map_some]
      exact .inl ⟨.inl ⟨name, m, rfl, hmem⟩, code _⟩
    | none =>
      simp only [writeEnum, EnumDef.codeOf?, hm, Option.map_none]
      refine .throw _ ?_
      rintro (⟨_, _, heq, hmem⟩ | heq)
      · cases heq
        exact List.idxOf?_eq_none_iff.mp hm hmem
      · cases heq
  | i32 n =>
    by_cases hn : n = Value.unknownCode
    · simp only [writeEnum, if_pos hn]
      exact .inl ⟨.inr (congrArg Value.i32 hn), code n⟩
    · simp only [writeEnum, if_neg hn]
      refine .throw _ ?_
      rintro (⟨_, _, heq, -⟩ | heq)
      · cases heq
      · exact hn (Value.i32.inj heq)
  | _ =>
    refine .throw _ ?_
    rintro (⟨_, _, heq, -⟩ | heq) <;> cases heq

/-! ## Headers -/

theorem exists_wireType (w : WireType) {rest : Writer Unit} {b : List UInt8} (h : Writes rest b) :
    ∃ bytes, 1 ≤ bytes.length ∧ Writes (do Writer.wireType w; rest : Writer Unit) bytes :=
  ⟨_, by simp [BigEndian.length_toBytes], (Writer.writes_bytes _).bind h⟩

/-- What follows the header of a list breaks off behind it. -/
theorem elements_writesIf {elem : Ty} {n : Nat} {shape : Shape} {ok : Prop} {body : Writing Unit}
    (hr : resolve s elem = .ok shape) (hl : n ≤ Writer.maxSize) (h : WritesIf ok 0 body) :
    WritesIf ok 1 (do
      Writer.listHeader ⟨← wireType s elem, ← containerSize n⟩
      body : Writing Unit) := by
  obtain ⟨header, hlen, hheader⟩ := exists_wireType shape.wireType (Writer.writes_bytes _)
  rw [wireType_eq hr, containerSize_eq hl]
  exact (WritesIf.after (hheader.adapt Fault.wire) h).mono hlen

theorem pairs_writesIf {key value : Ty} {n : Nat} {keyShape valueShape : Shape} {ok : Prop}
    {body : Writing Unit} (hk : resolve s key = .ok keyShape)
    (hv : resolve s value = .ok valueShape) (hl : n ≤ Writer.maxSize) (h : WritesIf ok 0 body) :
    WritesIf ok 1 (do
      Writer.mapHeader ⟨← wireType s key, ← wireType s value, ← containerSize n⟩
      body : Writing Unit) := by
  obtain ⟨_, _, hvalue⟩ := exists_wireType valueShape.wireType (Writer.writes_bytes _)
  obtain ⟨header, hlen, hheader⟩ := exists_wireType keyShape.wireType hvalue
  rw [wireType_eq hk, wireType_eq hv, containerSize_eq hl]
  exact (WritesIf.after (hheader.adapt Fault.wire) h).mono hlen

/-- Before the header of a list it is known whether its elements have a type and can be counted. -/
theorem elements_breaks {elem : Ty} {n : Nat} {body : Writing Unit}
    (h : ¬ ((∃ shape, resolve s elem = .ok shape) ∧ n ≤ Writer.maxSize)) :
    Breaks (do
      Writer.listHeader ⟨← wireType s elem, ← containerSize n⟩
      body : Writing Unit) [] := by
  unfold wireType containerSize
  cases hr : resolve s elem with
  | error e => exact Breaks.throw e
  | ok shape =>
    rw [if_neg fun hl => h ⟨⟨shape, hr⟩, hl⟩]
    exact Breaks.throw _

theorem pairs_breaks {key value : Ty} {n : Nat} {body : Writing Unit}
    (h : ¬ ((∃ shape, resolve s key = .ok shape) ∧ (∃ shape, resolve s value = .ok shape) ∧
      n ≤ Writer.maxSize)) :
    Breaks (do
      Writer.mapHeader ⟨← wireType s key, ← wireType s value, ← containerSize n⟩
      body : Writing Unit) [] := by
  unfold wireType containerSize
  cases hk : resolve s key with
  | error e => exact Breaks.throw e
  | ok keyShape =>
    cases hv : resolve s value with
    | error e => exact Breaks.throw e
    | ok valueShape =>
      rw [if_neg fun hl => h ⟨⟨keyShape, hk⟩, ⟨valueShape, hv⟩, hl⟩]
      exact Breaks.throw _

/-! ## Values -/

/-- Either nothing is written before all is decided, or the parts of the value come next. -/
inductive Opening (s : Schema) : Ty → Value → Prop
  | settled {ty : Ty} {v : Value} :
    AllOrNothing (Writable s ty v) (write s ty v) → Opening s ty v
  | elements {ty elem : Ty} {shape : Shape} {v : Value} {items : List Value} :
    Elements s ty v elem items → resolve s elem = .ok shape → items.length ≤ Writer.maxSize →
      Opening s ty v
  | map {ty key value : Ty} {keyShape valueShape : Shape} {entries : List (Value × Value)} :
    resolve s ty = .ok (.map key value) → resolve s key = .ok keyShape →
      resolve s value = .ok valueShape → entries.length ≤ Writer.maxSize →
      Opening s ty (.map entries)
  | struct {ty : Ty} {d : StructDef} {name : String} {fields : List (String × Value)} :
    resolve s ty = .ok (.struct d) → Opening s ty (.struct name fields)

theorem elements_opening {items : List Value} (h : Elements s ty v elem items) :
    Opening s ty v := by
  by_cases hheader : (∃ shape, resolve s elem = .ok shape) ∧ items.length ≤ Writer.maxSize
  · obtain ⟨⟨shape, he⟩, hl⟩ := hheader
    exact .elements h he hl
  · refine .settled (.inr ⟨?_, ?_⟩)
    · rw [h.writable_iff]
      rintro ⟨he, hl, -⟩
      exact hheader ⟨he, hl⟩
    · rw [h.write_eq]
      exact elements_breaks hheader

theorem map_opening {key value : Ty} {entries : List (Value × Value)}
    (hr : resolve s ty = .ok (.map key value)) : Opening s ty (.map entries) := by
  by_cases hheader : (∃ shape, resolve s key = .ok shape) ∧
      (∃ shape, resolve s value = .ok shape) ∧ entries.length ≤ Writer.maxSize
  · obtain ⟨⟨keyShape, hk⟩, ⟨valueShape, hv⟩, hl⟩ := hheader
    exact .map hr hk hv hl
  · refine .settled (.inr ⟨?_, ?_⟩)
    · rw [writable_map_iff hr]
      rintro ⟨_, heq, hk, hv, hl, -⟩
      cases heq
      exact hheader ⟨hk, hv, hl⟩
    · unfold write
      rw [hr]
      exact pairs_breaks hheader

theorem opening (s : Schema) (ty : Ty) (v : Value) : Opening s ty v := by
  cases hr : resolve s ty with
  | error e =>
    refine .settled (.inr ⟨fun h => ?_, ?_⟩)
    · obtain ⟨shape, hshape⟩ := h.resolves
      cases hr.symm.trans hshape
    · unfold write
      rw [hr]
      exact Breaks.throw e
  | ok shape =>
    cases hkind : admits shape v with
    | false =>
      refine .settled ?_
      rw [write_of_not_admits hr hkind]
      refine .throw _ fun h => ?_
      rw [h.admits hr] at hkind
      cases hkind
    | true =>
      cases shape with
      | prim q =>
        have hwrite := (primitive_allOrNothing ty q v).congr (writable_prim_iff hr)
        refine .settled ?_
        unfold write
        rw [hr]
        exact hwrite
      | enum d =>
        have hwrite := (enum_allOrNothing ty d v).congr (writable_enum_iff hr)
        refine .settled ?_
        unfold write
        rw [hr]
        exact hwrite
      | list elem =>
        cases v with
        | list items => exact elements_opening (.inl ⟨hr, rfl⟩)
        | _ => cases hkind
      | set elem =>
        cases v with
        | set items => exact elements_opening (.inr ⟨hr, rfl⟩)
        | _ => cases hkind
      | map key value =>
        cases v with
        | map entries => exact map_opening hr
        | _ => cases hkind
      | struct d =>
        cases v with
        | struct name fields => exact .struct hr
        | _ => cases hkind

theorem items_writesIf {elem : Ty} {items : List Value}
    (h : ∀ v ∈ items, WritesIf (Writable s elem v) 0 (write s elem v)) :
    WritesIf (∀ v ∈ items, Writable s elem v) 0 (writeItems s elem items) := by
  induction items with
  | nil => exact .of_writes Writes.pure (List.forall_mem_nil _)
  | cons v items ih =>
    rw [List.forall_mem_cons] at h
    unfold writeItems
    exact (h.1.bind (ih h.2)).congr List.forall_mem_cons

theorem entries_writesIf {key value : Ty} {entries : List (Value × Value)}
    (h : ∀ e ∈ entries, WritesIf (Writable s key e.1) 0 (write s key e.1) ∧
      WritesIf (Writable s value e.2) 0 (write s value e.2)) :
    WritesIf (∀ e ∈ entries, Writable s key e.1 ∧ Writable s value e.2) 0
      (writeEntries s key value entries) := by
  induction entries with
  | nil => exact .of_writes Writes.pure (List.forall_mem_nil _)
  | cons e entries ih =>
    rw [List.forall_mem_cons] at h
    unfold writeEntries
    refine (h.1.1.bind (h.1.2.bind (ih h.2))).congr ?_
    rw [List.forall_mem_cons, and_assoc]

theorem Elements.writesIf {shape : Shape} {items : List Value} (h : Elements s ty v elem items)
    (he : resolve s elem = .ok shape) (hl : items.length ≤ Writer.maxSize)
    (hitems : ∀ v ∈ items, WritesIf (Writable s elem v) 0 (write s elem v)) :
    WritesIf (Writable s ty v) 1 (write s ty v) := by
  have hwrite := elements_writesIf he hl (items_writesIf hitems)
  rw [h.write_eq]
  refine hwrite.congr ?_
  rw [h.writable_iff]
  exact ⟨fun hall => hall.2.2, fun hall => ⟨⟨shape, he⟩, hl, hall⟩⟩

theorem map_writesIf {key value : Ty} {keyShape valueShape : Shape}
    {entries : List (Value × Value)} (hr : resolve s ty = .ok (.map key value))
    (hk : resolve s key = .ok keyShape) (hv : resolve s value = .ok valueShape)
    (hl : entries.length ≤ Writer.maxSize)
    (h : ∀ e ∈ entries, WritesIf (Writable s key e.1) 0 (write s key e.1) ∧
      WritesIf (Writable s value e.2) 0 (write s value e.2)) :
    WritesIf (Writable s ty (.map entries)) 1 (write s ty (.map entries)) := by
  have hwrite := pairs_writesIf hk hv hl (entries_writesIf h)
  unfold write
  rw [hr]
  refine .congr hwrite ?_
  rw [writable_map_iff hr]
  constructor
  · rintro ⟨_, heq, -, -, -, hentries⟩
    cases heq
    exact hentries
  · exact fun hentries => ⟨entries, rfl, ⟨keyShape, hk⟩, ⟨valueShape, hv⟩, hl, hentries⟩

section Fields

variable {f : FieldDef} {fields : List (String × Value)}

/-- A field whose type resolves breaks off behind its header. -/
theorem field_writesIf (hr : ∀ v, Table.find? f.name fields = some v → ∃ shape,
      resolve s f.type = .ok shape)
    (h : ∀ v, Table.find? f.name fields = some v →
      WritesIf (Writable s f.type v) 0 (write s f.type v)) :
    WritesIf (∀ v, Table.find? f.name fields = some v → Writable s f.type v) 1
      (writeField s f fields) := by
  rw [writeField_eq]
  cases hv : Table.find? f.name fields with
  | none => exact .of_writes Writes.pure fun _ hnone => by cases hnone
  | some v =>
    obtain ⟨shape, hshape⟩ := hr v hv
    obtain ⟨header, hlen, hheader⟩ := exists_wireType shape.wireType
      (Writer.writes_bytes (BigEndian.toBytes 2 f.index.toUInt16.toNat))
    have hwrite := WritesIf.after (k := fun _ => write s f.type v)
      (hheader.adapt Fault.wire) (h v hv)
    simp only [wireType_eq hshape]
    refine .congr (hwrite.mono hlen) ?_
    simp

/-- A field whose type does not resolve breaks off before it. -/
theorem unresolved_writesIf (hr : ¬ ∃ shape, resolve s f.type = .ok shape) :
    WritesIf (∀ v, Table.find? f.name fields = some v → Writable s f.type v) 0
      (writeField s f fields) := by
  rw [writeField_eq]
  cases hv : Table.find? f.name fields with
  | none => exact .of_writes Writes.pure fun _ hnone => by cases hnone
  | some v =>
    have hnot : ¬ ∀ w, some v = some w → Writable s f.type w := fun h => hr (h v rfl).resolves
    unfold wireType
    cases hshape : resolve s f.type with
    | error e => exact .of_breaks (Breaks.throw e) (Nat.zero_le _) hnot
    | ok shape => exact absurd ⟨shape, hshape⟩ hr

theorem fields_writesIf {least : Nat}
    (h : ∀ f ∈ d.fieldDefs, WritesIf
      (∀ v, Table.find? f.name fields = some v → Writable s f.type v) least
      (writeField s f fields)) :
    WritesIf (FieldsWritable s d fields) least
      (writeFields d fun f => writeField s f fields) := by
  have hstop : WritesIf True least (Writer.fieldStop : Writing Unit) :=
    .of_writes ((Writer.writes_bytes _).adapt Fault.wire) trivial
  have hsteps := WritesIf.forM fun e he => h e.2 (List.mem_map_of_mem (f := Prod.snd) he)
  refine (hsteps.bind hstop).congr ?_
  unfold FieldsWritable StructDef.fieldDefs
  rw [and_true, List.forall_mem_map]

theorem struct_writesIf {name : String} {least : Nat} (hr : resolve s ty = .ok (.struct d))
    (h : WritesIf (FieldsWritable s d fields) least
      (writeFields d fun f => writeField s f fields)) :
    WritesIf (Writable s ty (.struct name fields)) least (write s ty (.struct name fields)) := by
  unfold write
  rw [hr]
  refine .congr h ?_
  rw [writable_struct_iff hr]
  constructor
  · rintro ⟨_, _, heq, hfields⟩
    cases heq
    exact hfields
  · exact fun hfields => ⟨name, fields, rfl, hfields⟩

end Fields

theorem write_writesIf (s : Schema) (ty : Ty) (v : Value) :
    WritesIf (Writable s ty v) 0 (write s ty v) := by
  induction v using Value.induct generalizing ty with
  | h v ih =>
    cases opening s ty v with
    | settled h => exact h.writesIf
    | elements h he hl =>
      refine (h.writesIf he hl fun v hv => ?_).mono (Nat.zero_le 1)
      exact ih v (h.parts_eq ▸ hv) _
    | map hr hk hv hl =>
      refine (map_writesIf hr hk hv hl fun e he => ⟨?_, ?_⟩).mono (Nat.zero_le 1)
      · exact ih _ (Value.key_mem_parts he) _
      · exact ih _ (Value.value_mem_parts he) _
    | struct hr =>
      refine struct_writesIf hr (fields_writesIf fun f hf => ?_)
      by_cases hres : ∃ shape, resolve s f.type = .ok shape
      · refine (field_writesIf (fun _ _ => hres) fun v hv => ?_).mono (Nat.zero_le 1)
        exact ih v (Value.field_mem_parts hv) _
      · exact unresolved_writesIf hres

/-- Without parts, or with too many of them, a value is refused before its first byte. -/
theorem write_breaks (hnot : ¬ Writable s ty v) (h : v.parts = [] ∨ Writer.maxSize < v.length) :
    Breaks (write s ty v) [] := by
  cases opening s ty v with
  | settled hw => exact (hw.resolve_left fun hok => hnot hok.1).2
  | elements helems he hl =>
    rw [helems.length_eq, helems.parts_eq] at h
    have hitems := h.resolve_right (Nat.not_lt.mpr hl)
    subst hitems
    exact absurd (helems.writable_iff.mpr ⟨⟨_, he⟩, hl, List.forall_mem_nil _⟩) hnot
  | @map _ _ _ _ entries hr hk hv hl =>
    have hentries : entries = [] := by
      have hparts := h.resolve_right (Nat.not_lt.mpr hl)
      cases entries with
      | nil => rfl
      | cons e entries => cases hparts
    subst hentries
    exact absurd (.map hr hk hv hl (List.forall_mem_nil _) (List.forall_mem_nil _)) hnot
  | @struct _ name fields hr =>
    have hfields : fields = [] := by
      have hparts := h.resolve_right (Nat.not_lt.mpr (Nat.zero_le _))
      simpa [Value.parts] using hparts
    subst hfields
    exact absurd (.struct hr fun _ _ _ hnone => by cases hnone) hnot

end ThriftRpc.Codec
