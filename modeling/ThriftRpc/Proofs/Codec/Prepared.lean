import ThriftRpc.Proofs.Codec.Records
import ThriftRpc.Proofs.Codec.Skip
import ThriftRpc.Proofs.Codec.Total

/-!
# What is prepared can be sent

Preparing fails for the value alone, never for the wire (`prepare_errs`), and what it gives is no
longer than what was given (`prepare_longest`). So a prepared struct is written whole, as one record for
each field that is present, in order of declaration (`preparedStruct_records`).
-/

namespace ThriftRpc

namespace Value

/-- The length that a value has or that its text has: of a text or the name of a member in bytes, of a
byte string, of a container in elements. -/
def extent : Value → Nat
  | enum _ member => (Text.Utf8.encode member).length
  | v => v.length

/-- The greatest extent anywhere in a value. -/
def widest : Value → Nat := greatest fun v n => max v.extent n

theorem widest_le {v : Value} {n : Nat} :
    v.widest ≤ n ↔ v.extent ≤ n ∧ ∀ w ∈ v.parts, w.widest ≤ n := by
  unfold widest
  rw [greatest_eq, Nat.max_le, greatestPart_le]

end Value

namespace Codec

open Wire

variable {s : Schema} {ty : Ty} {v p : Value} {d : StructDef}

/-! ## Faults -/

/-- The fault lies in the value or its type. -/
def Fault.OfValue : Fault → Prop
  | wire _ => False
  | _ => True

theorem resolve_errs : Errs (resolve s ty) Fault.OfValue := by
  intro fault h
  obtain ⟨name, rfl⟩ := resolve_eq_error h
  trivial

theorem orMismatch_errs (o : Option Value) : Errs (orMismatch ty v o) Fault.OfValue := by
  cases o with
  | none => exact .error trivial
  | some w => exact .ok w

theorem prepareItems_errs {elem : Ty} {items : List Value}
    (h : ∀ v ∈ items, Errs (prepare s elem v) Fault.OfValue) :
    Errs (prepareItems s elem items) Fault.OfValue := by
  induction items with
  | nil => exact .ok _
  | cons v items ih =>
    rw [List.forall_mem_cons] at h
    unfold prepareItems
    exact h.1.bind fun _ => (ih h.2).bind fun _ => .ok _

theorem prepareEntries_errs {key value : Ty} {entries : List (Value × Value)}
    (h : ∀ e ∈ entries, Errs (prepare s key e.1) Fault.OfValue ∧
      Errs (prepare s value e.2) Fault.OfValue) :
    Errs (prepareEntries s key value entries) Fault.OfValue := by
  induction entries with
  | nil => exact .ok _
  | cons e entries ih =>
    rw [List.forall_mem_cons] at h
    unfold prepareEntries
    exact h.1.1.bind fun _ => h.1.2.bind fun _ => (ih h.2).bind fun _ => .ok _

theorem assemble_errs {name : String} {given : List String}
    {field : FieldDef → Except Fault (Option Value)} (h : ∀ f, Errs (field f) Fault.OfValue) :
    Errs (assemble d name given field) Fault.OfValue := by
  unfold assemble
  split
  · exact .error trivial
  split
  · exact .error trivial
  · refine Errs.bind (Errs.foldlM (fun done f _ => (h f.2).bind fun o => ?_) []) fun fields => .ok _
    cases o <;> exact .ok _

theorem prepareFields_errs {name : String} {fields : List (String × Value)}
    (h : ∀ (ty : Ty), ∀ v ∈ (Value.struct name fields).parts, Errs (prepare s ty v) Fault.OfValue) :
    Errs (prepareStruct s d (.struct name fields)) Fault.OfValue := by
  unfold prepareStruct
  refine assemble_errs fun f => ?_
  rw [prepareField_eq]
  cases hv : Table.find? f.name fields with
  | none => exact .ok none
  | some v => exact (h f.type v (Value.field_mem_parts hv)).map some

theorem prepare_errs (s : Schema) (ty : Ty) (v : Value) : Errs (prepare s ty v) Fault.OfValue := by
  induction v using Value.induct generalizing ty with
  | h v ih =>
    unfold prepare
    refine resolve_errs.bind fun shape => ?_
    cases shape with
    | prim q => exact orMismatch_errs _
    | enum e => exact orMismatch_errs _
    | struct d =>
      cases v with
      | struct name fields => exact prepareFields_errs fun ty w hw => ih w hw ty
      | _ => exact .error trivial
    | list elem =>
      cases v with
      | list items | set items => exact (prepareItems_errs fun w hw => ih w hw elem).map _
      | _ => exact .error trivial
    | set elem =>
      cases v with
      | list items | set items => exact (prepareItems_errs fun w hw => ih w hw elem).map _
      | _ => exact .error trivial
    | map key value =>
      cases v with
      | map entries =>
        refine (prepareEntries_errs fun e he => ?_).map _
        exact ⟨ih _ (Value.key_mem_parts he) key, ih _ (Value.value_mem_parts he) value⟩
      | _ => exact .error trivial

theorem prepareStruct_errs (s : Schema) (d : StructDef) (v : Value) :
    Errs (prepareStruct s d v) Fault.OfValue := by
  cases v with
  | struct name fields => exact prepareFields_errs fun ty w _ => prepare_errs s ty w
  | _ => exact .error trivial

/-! ## Lengths -/

theorem text?_fits {t : String} (h : v.text? = some t) (hv : v.extent ≤ Writer.maxSize) :
    TextFits t := by
  cases v with
  | bool b => cases h; exact textFits_boolText b
  | byte k =>
    cases h
    exact textFits_toString (Int.le_trans (by decide) k.le_toInt)
      (Int.lt_of_lt_of_le k.toInt_lt (by decide))
  | i16 k =>
    cases h
    exact textFits_toString (Int.le_trans (by decide) k.le_toInt)
      (Int.lt_of_lt_of_le k.toInt_lt (by decide))
  | i32 k =>
    cases h
    exact textFits_toString (Int.le_trans (by decide) k.le_toInt)
      (Int.lt_of_lt_of_le k.toInt_lt (by decide))
  | i64 k => cases h; exact textFits_toString k.le_toInt k.toInt_lt
  | double x => cases h; exact text_fits (Double.render_length_le x)
  | string t => cases h; exact hv
  | enum name member => cases h; exact hv
  | _ => cases h

/-- What is no byte string gives its text where a text is expected. -/
theorem asPrimitive_text (h : ∀ bytes, v ≠ .binary bytes) :
    asPrimitive .string v = v.text?.map .string := by
  cases v with
  | binary bytes => exact absurd rfl (h bytes)
  | _ => rfl

theorem asPrimitive_length {q : Primitive} (h : asPrimitive q v = some p)
    (hv : v.extent ≤ Writer.maxSize) : p.length ≤ Writer.maxSize := by
  have hp := asPrimitive_holds h
  cases hp with
  | string t =>
    by_cases hbinary : ∃ bytes, v = .binary bytes
    · obtain ⟨bytes, rfl⟩ := hbinary
      obtain ⟨t', ht, heq⟩ := Option.map_eq_some_iff.mp h
      cases heq
      cases hdecode : Text.Utf8.decode bytes with
      | error fault => rw [hdecode] at ht; cases ht
      | ok t' =>
        rw [hdecode] at ht
        cases ht
        show (Text.Utf8.encode t).length ≤ Writer.maxSize
        rwa [← Text.Utf8.decode_eq_ok_iff.mp hdecode]
    · rw [asPrimitive_text fun bytes he => hbinary ⟨bytes, he⟩] at h
      obtain ⟨t', ht, heq⟩ := Option.map_eq_some_iff.mp h
      cases heq
      exact text?_fits ht hv
  | binary bytes =>
    cases v with
    | binary bytes' => cases h; exact hv
    | string t => cases h; exact hv
    | _ => cases h
  | _ => exact Nat.zero_le _

theorem longest_of_holds {q : Primitive} (h : q.Holds p) {n : Nat} (hl : p.length ≤ n) :
    p.longest ≤ n := by
  refine Value.longest_le.mpr ⟨hl, fun w hw => ?_⟩
  cases h <;> cases hw

/-- A member and the code for unknown members have no length. -/
theorem longest_of_enum {e : EnumDef} {n : Nat} (hr : resolve s ty = .ok (.enum e))
    (h : Conforms s StructDef.InOrder ty p) : p.longest ≤ n := by
  cases h with
  | member | unknownMember => exact Nat.zero_le n
  | prim hr' | list hr' | set hr' | map hr' | struct hr' => cases hr.symm.trans hr'

/-- The fields of a prepared struct are those of the given one, each prepared. -/
theorem longest_of_fields {given fields : List (String × Value)} {n : Nat} (hd : d.fieldNames.Nodup)
    (hparts : ∀ v ∈ (Value.struct d.name given).parts, ∀ {ty p}, prepare s ty v = .ok p →
      p.longest ≤ n)
    (horder : d.InOrder (fields.map Prod.fst))
    (hfield : ∀ f ∈ d.fieldDefs, prepareField s f given = .ok (Table.find? f.name fields)) :
    (Value.struct d.name fields).longest ≤ n := by
  have hholds : FieldsHold (fun _ p => p.longest ≤ n) d fields := by
    refine ⟨⟨hd.sublist horder, horder.subset⟩, fun f hf w hw => ?_⟩
    rcases prepareField_ok (hfield f hf) with ⟨_, hnone⟩ | ⟨v, w', hv, hw', hprep⟩
    · rw [hw] at hnone
      cases hnone
    · rw [hw] at hw'
      cases hw'
      exact hparts v (Value.field_mem_parts hv) hprep
  refine Value.longest_le.mpr ⟨Nat.zero_le n, Value.forall_parts_struct.mpr ?_⟩
  exact hholds.forall fun _ _ _ h => h

/-- What is prepared is no longer than the headers can hold, if what was given is not. -/
theorem prepare_longest (hs : ∀ d ∈ s.structDefs, d.fieldNames.Nodup)
    (h : prepare s ty v = .ok p) (hv : v.widest ≤ Writer.maxSize) :
    p.longest ≤ Writer.maxSize := by
  induction v using Value.induct generalizing ty p with
  | h v ih =>
    obtain ⟨hextent, hparts⟩ := Value.widest_le.mp hv
    have items {items ps : List Value} {elem : Ty} (hv : v = .list items ∨ v = .set items)
        (hps : prepareItems s elem items = .ok ps) :
        ps.length ≤ Writer.maxSize ∧ ∀ w ∈ ps, w.longest ≤ Writer.maxSize := by
      have hall := prepareItems_ok hps
      refine ⟨?_, fun w hw => ?_⟩
      · rw [← hall.length_eq]
        rcases hv with rfl | rfl <;> exact hextent
      · obtain ⟨v', hv', hprep⟩ := exists_of_mem_right hall hw
        have hmem : v' ∈ v.parts := by rcases hv with rfl | rfl <;> exact hv'
        exact ih v' hmem hprep (hparts v' hmem)
    obtain ⟨shape, hr, -⟩ := bind_eq_ok (by unfold prepare at h; exact h)
    cases shape with
    | prim q =>
      unfold prepare at h
      rw [hr] at h
      have hp := eq_some_of_orMismatch h
      exact longest_of_holds (asPrimitive_holds hp) (asPrimitive_length hp hextent)
    | enum e =>
      unfold prepare at h
      rw [hr] at h
      exact longest_of_enum hr (asEnum_conforms hr (eq_some_of_orMismatch h))
    | struct d =>
      rw [prepare_struct hr] at h
      have hd := hs d (mem_structDefs_of_resolve hr)
      obtain ⟨given, fields, rfl, rfl, -, horder, hfield⟩ := prepareStruct_ok hd h
      exact longest_of_fields hd (fun w hw _ _ hprep => ih w hw hprep (hparts w hw)) horder hfield
    | list elem =>
      obtain ⟨given, ps, hgiven, hps, rfl⟩ := prepare_list_ok hr h
      exact Value.longest_le.mpr (items hgiven hps)
    | set elem =>
      obtain ⟨given, ps, hgiven, hps, rfl⟩ := prepare_set_ok hr h
      obtain ⟨hlength, hlongest⟩ := items hgiven hps
      exact Value.longest_le.mpr ⟨Nat.le_trans (Value.length_distinct_le ps) hlength,
        fun w hw => hlongest w (Value.mem_of_mem_distinct hw)⟩
    | map key value =>
      obtain ⟨entries, ps, rfl, hps, rfl⟩ := prepare_map_ok hr h
      have hall := prepareEntries_ok hps
      refine Value.longest_le.mpr ⟨Nat.le_trans (Nat.le_of_eq hall.length_eq.symm) hextent,
        Value.forall_parts_map.mpr fun e he => ?_⟩
      obtain ⟨e', he', hkey, hvalue⟩ := exists_of_mem_right hall he
      have hk := Value.key_mem_parts he'
      have hv := Value.value_mem_parts he'
      exact ⟨ih _ hk hkey (hparts _ hk), ih _ hv hvalue (hparts _ hv)⟩

theorem prepareStruct_longest (hs : ∀ d ∈ s.structDefs, d.fieldNames.Nodup)
    (hd : d.fieldNames.Nodup) (h : prepareStruct s d v = .ok p)
    (hv : ∀ w ∈ v.parts, w.widest ≤ Writer.maxSize) : p.longest ≤ Writer.maxSize := by
  obtain ⟨given, fields, rfl, rfl, -, horder, hfield⟩ := prepareStruct_ok hd h
  exact longest_of_fields hd (fun w hw _ _ hprep => prepare_longest hs hprep (hv w hw)) horder hfield

/-- The record is what is written for the value as the field `f`. -/
structure Record.Written (s : Schema) (f : FieldDef) (v : Value) (r : Record) : Prop where
  index : r.index = f.index
  type : Codec.wireType s f.type = .ok r.wireType
  payload : Writes (write s f.type v) r.payload

/-- A prepared struct is written as a record for each of its fields, in order. -/
theorem preparedStruct_records (hs : s.Complete) (hkeyed : ∀ d ∈ s.structDefs, d.Keyed)
    (hd : d.Regular s) {fields : List (String × Value)}
    (h : FieldsConform s StructDef.InOrder d fields)
    (hl : (Value.struct d.name fields).longest ≤ Writer.maxSize) :
    ∃ records, Writes (writePreparedStruct s d (.struct d.name fields)) (structBytes records) ∧
      List.Forall₂ (fun e r => ∃ f ∈ d.fieldDefs, f.name = e.1 ∧ r.Written s f e.2) fields
        records := by
  -- The records in `bytes` are those of the fields that are not in `done`.
  let P (done : Table String Value) (bytes : List UInt8) : Prop :=
    ∃ later records, fields = done ++ later ∧ bytes = structBytes records ∧
      List.Forall₂ (fun e r => ∃ f ∈ d.fieldDefs, f.name = e.1 ∧ r.Written s f e.2) later records
  have hstop {stop : List UInt8} (hwrites : Writes Writer.fieldStop stop) : P fields stop :=
    ⟨[], [], (List.append_nil _).symm, hwrites.unique (Writer.writes_wireType .stop), .nil⟩
  have hkeeps : ∀ f ∈ d.fieldDefs, Keeps s fields P f := by
    rintro f hf v w header payload _ done hv hw - hheader hpayload - ⟨later, records, hlater, rfl, h⟩
    cases hheader.unique (Writer.writes_fieldHeader _)
    let r : Record := ⟨w, f.index, payload⟩
    refine ⟨(f.name, v) :: later, r :: records, by rw [hlater, List.append_assoc]; rfl,
      (structBytes_cons r records).symm, .cons ⟨f, hf, rfl, rfl, hw, hpayload⟩ h⟩
  obtain ⟨_, hwrites, later, records, hlater, rfl, hall⟩ :=
    writes_fields hd.isKeyed h.names (fun f hf v hv => by
      obtain ⟨shape, hshape, node, hnode, -⟩ := preparedFields_written hs hkeyed hd h hl f hf v hv
      exact ⟨_, node.bytes, wireType_eq hshape, wireType_ne_stop shape, hnode⟩) hstop hkeeps
  cases hlater
  exact ⟨records, hwrites, hall⟩

end Codec

end ThriftRpc
