import ThriftRpc.Codec.Read
import ThriftRpc.Codec.Write
import ThriftRpc.Proofs.Codec.Conforms
import ThriftRpc.Proofs.Wire.Limit

/-!
# The fields of a struct on the wire

The present fields of a struct are written as records, each behind its header, and then a stop.
`writes_fields` is the one induction over them: what holds before the stop and is kept by each
record in front holds of all the bytes. The readers of structs are its instances.
-/

namespace ThriftRpc.Codec

open Wire

variable {s : Schema} {v : Value} {d : StructDef}

theorem writeField_eq (f : FieldDef) (fields : List (String × Value)) :
    writeField s f fields = match Table.find? f.name fields with
      | some v => do
        Writer.fieldHeader ⟨← wireType s f.type, f.index⟩
        write s f.type v
      | none => return := by
  induction fields with
  | nil => rfl
  | cons e fields ih =>
    obtain ⟨name, v⟩ := e
    unfold writeField Table.find?
    split
    · rfl
    · exact ih

theorem writes_field {f : FieldDef} {fields : List (String × Value)} {w : WireType}
    {header payload : List UInt8} (hv : Table.find? f.name fields = some v)
    (hw : wireType s f.type = .ok w) (hheader : Writes (Writer.fieldHeader ⟨w, f.index⟩) header)
    (hpayload : Writes (write s f.type v) payload) :
    Writes (writeField s f fields) (header ++ payload) := by
  rw [writeField_eq, hv]
  simp only [hw]
  exact (hheader.adapt Fault.wire).bind hpayload

theorem writes_absent {f : FieldDef} {fields : List (String × Value)}
    (hv : Table.find? f.name fields = none) : Writes (writeField s f fields) [] := by
  rw [writeField_eq, hv]
  exact Writes.pure

section Records

variable {fields : List (String × Value)} {P : Table String Value → List UInt8 → Prop}

/-- What a record of the field `f` in front of other bytes keeps. -/
def Keeps (s : Schema) (fields : List (String × Value)) (P : Table String Value → List UInt8 → Prop)
    (f : FieldDef) : Prop :=
  ∀ {v w header payload rest done}, Table.find? f.name fields = some v →
    wireType s f.type = .ok w → w ≠ .stop → Writes (Writer.fieldHeader ⟨w, f.index⟩) header →
    Writes (write s f.type v) payload → f.name ∉ done.map Prod.fst →
    P (done ++ [(f.name, v)]) rest → P done (header ++ (payload ++ rest))

/-- The fields in `done` are written; those of `defs` are still to come. -/
theorem writes_records {stop : List UInt8} (hstop : P fields stop)
    {defs : List (Int16 × FieldDef)} (hkeeps : ∀ e ∈ defs, Keeps s fields P e.2)
    (hvalues : ∀ e ∈ defs, ∀ v, Table.find? e.2.name fields = some v →
      ∃ w payload, wireType s e.2.type = .ok w ∧ w ≠ .stop ∧ Writes (write s e.2.type v) payload)
    (done : Table String Value) (hnames : (done.map Prod.fst ++ defs.map fun e => e.2.name).Nodup)
    (hfields : done ++ (defs.filterMap fun e =>
      (Table.find? e.2.name fields).map (e.2.name, ·)) = fields) :
    ∃ bytes, Writes (defs.forM fun e => writeField s e.2 fields) bytes ∧
      P done (bytes ++ stop) := by
  induction defs generalizing done with
  | nil =>
    rw [List.filterMap_nil, List.append_nil] at hfields
    exact ⟨[], Writes.pure, hfields ▸ hstop⟩
  | cons e defs ih =>
    rw [List.forall_mem_cons] at hkeeps hvalues
    rw [List.map_cons] at hnames
    rw [List.filterMap_cons] at hfields
    cases hv : Table.find? e.2.name fields with
    | none =>
      rw [hv] at hfields
      obtain ⟨bytes, hwrites, hp⟩ := ih hkeeps.2 hvalues.2 done
        (hnames.sublist (List.Sublist.append_left (List.sublist_cons_self _ _) _)) hfields
      exact ⟨bytes, (writes_absent hv).bind hwrites, hp⟩
    | some v =>
      rw [hv] at hfields
      obtain ⟨w, payload, hw, hne, hpayload⟩ := hvalues.1 v hv
      obtain ⟨header, hheader, -⟩ := Carried.fieldHeader (h := ⟨w, e.2.index⟩) hne
      have hnew : e.2.name ∉ done.map Prod.fst := fun hm =>
        (List.nodup_append.mp hnames).2.2 _ hm _ List.mem_cons_self rfl
      obtain ⟨bytes, hwrites, hp⟩ := ih hkeeps.2 hvalues.2 (done ++ [(e.2.name, v)])
        (by simpa using hnames) (by simpa using hfields)
      refine ⟨header ++ payload ++ bytes, (writes_field hv hw hheader hpayload).bind hwrites, ?_⟩
      rw [List.append_assoc, List.append_assoc]
      exact hkeeps.1 hv hw hne hheader hpayload hnew hp

theorem writes_fields (hd : d.Keyed) (horder : d.InOrder (fields.map Prod.fst))
    (hvalues : ∀ f ∈ d.fieldDefs, ∀ v, Table.find? f.name fields = some v →
      ∃ w payload, wireType s f.type = .ok w ∧ w ≠ .stop ∧ Writes (write s f.type v) payload)
    (hstop : ∀ {stop}, Writes Writer.fieldStop stop → P fields stop)
    (hkeeps : ∀ f ∈ d.fieldDefs, Keeps s fields P f) :
    ∃ bytes, Writes (writeFields d fun f => writeField s f fields) bytes ∧ P [] bytes := by
  obtain ⟨stop, hwstop, -⟩ := Carried.fieldStop
  have hmem : ∀ e ∈ d.fields, e.2 ∈ d.fieldDefs := fun e he =>
    List.mem_map_of_mem (f := Prod.snd) he
  obtain ⟨bytes, hwrites, hp⟩ := writes_records (hstop hwstop)
    (fun e he => hkeeps e.2 (hmem e he)) (fun e he => hvalues e.2 (hmem e he)) []
    (d.fieldNames_eq ▸ hd.names) (horder.found hd.names)
  exact ⟨bytes ++ stop, hwrites.bind (hwstop.adapt Fault.wire), hp⟩

end Records

/-! ## Reading -/

theorem reads_stop {value : ValueReader} {bytes : List UInt8} {fuel : Nat}
    {done : Table String Value} (hr : Reads Reader.fieldHeader bytes ⟨.stop, 0⟩) :
    Reads (readFields d value (fuel + 1) done) bytes done :=
  (hr.adapt Fault.wire).andThen (Reads.pure done)

/-- One field of a known index is read, then the rest. -/
theorem reads_field {value : ValueReader} {header payload rest : List UInt8} {fuel : Nat}
    {done fields : Table String Value} {f : FieldDef} {w : WireType} {ok ok' : Prop} {spare : Nat}
    {e : Fault} (hf : d.field? f.index = some f) (hw : w ≠ .stop)
    (hheader : Reads Reader.fieldHeader header ⟨w, f.index⟩)
    (hvalue : ReadsIf ok 0 e (value f.type w) payload (some v))
    (hrest : ReadsIf ok' spare e (readFields d value fuel (done.insert f.name v)) rest fields)
    (hspare : spare ≤ rest.length) :
    ReadsIf (ok ∧ ok') spare e (readFields d value (fuel + 1) done) (header ++ (payload ++ rest))
      fields := by
  refine .after (hheader.adapt Fault.wire) ?_
  simp only [if_neg hw, hf]
  exact hvalue.bind hrest hspare

section Pending

variable {fields : List (String × Value)} {P : Value → Prop}

/-- The values in `fields` that are not in `done` satisfy `P`. -/
def Pending (fields : List (String × Value)) (P : Value → Prop) (done : Table String Value) :
    Prop :=
  ∀ e ∈ fields, e.1 ∉ done.map Prod.fst → P e.2

theorem pending_nil : Pending fields P [] ↔ ∀ e ∈ fields, P e.2 :=
  ⟨fun h e he => h e he List.not_mem_nil, fun h e he _ => h e he⟩

theorem pending_self : Pending fields P fields :=
  fun _ he hnew => absurd (List.mem_map_of_mem (f := Prod.fst) he) hnew

theorem pending_append (hd : (fields.map Prod.fst).Nodup) {done : Table String Value} {name : String}
    (hv : Table.find? name fields = some v) (hnew : name ∉ done.map Prod.fst) :
    Pending fields P done ↔ P v ∧ Pending fields P (done ++ [(name, v)]) := by
  have hnames : (done ++ [(name, v)]).map Prod.fst = done.map Prod.fst ++ [name] := by
    rw [List.map_append]
    rfl
  constructor
  · intro h
    refine ⟨h _ (Table.mem_of_find? hv) hnew, fun e he hnot => h e he fun hm => hnot ?_⟩
    rw [hnames]
    exact List.mem_append_left _ hm
  · rintro ⟨hp, h⟩ e he hnot
    by_cases hname : e.1 = name
    · have hfound : Table.find? e.1 fields = some e.2 := Table.find?_of_mem hd he
      rw [hname, hv] at hfound
      cases hfound
      exact hp
    · refine h e he ?_
      rw [hnames]
      simp [hnot, hname]

end Pending

/-- The fields of a struct value that a reader of values gives back, if they satisfy `ok`. -/
def FieldsCarried (s : Schema) (value : ValueReader) (ok : Value → Prop) (fault : Fault)
    (d : StructDef) (fields : List (String × Value)) : Prop :=
  ∀ f ∈ d.fieldDefs, ∀ v, Table.find? f.name fields = some v →
    ∃ w, wireType s f.type = .ok w ∧ w ≠ .stop ∧
      CarriedIf (ok v) 0 fault (write s f.type v) (value f.type w) (some v)

/-- When a field is refused the stop at least is left. -/
theorem fields_carried {value : ValueReader} (ok : Value → Prop) {fault : Fault}
    {fields : List (String × Value)} (hd : d.Keyed) (horder : d.InOrder (fields.map Prod.fst))
    (hfields : FieldsCarried s value ok fault d fields) :
    CarriedIf (∀ e ∈ fields, ok e.2) 1 fault (writeFields d fun f => writeField s f fields)
      (readFieldsOf d value) (.struct d.name fields) := by
  -- The reader's fuel is the number of bytes it sees, and every record has at least one.
  let P (done : Table String Value) (bytes : List UInt8) : Prop :=
    1 ≤ bytes.length ∧ ∀ fuel, bytes.length ≤ fuel →
      ReadsIf (Pending fields ok done) 1 fault (readFields d value fuel done) bytes fields
  have hstop {stop : List UInt8} (hwrites : Writes Writer.fieldStop stop) : P fields stop := by
    have hr := Carried.fieldStop.reads hwrites
    refine ⟨List.length_pos_of_ne_nil (fieldHeader_ne_nil hr), fun fuel hfuel => ?_⟩
    have hlen : (stop ++ []).length ≤ fuel := by rwa [List.append_nil]
    obtain ⟨k, rfl, -⟩ := exists_fuel hr hlen
    exact ⟨fun _ => reads_stop hr, fun hnot => absurd pending_self hnot⟩
  have hkeeps : ∀ f ∈ d.fieldDefs, Keeps s fields P f := by
    intro f hf v w header payload rest done hv hw hne hwrites hpayload hnew ⟨hpos, hrest⟩
    have hheader := (Carried.fieldHeader hne).reads hwrites
    refine ⟨?_, fun fuel hfuel => ?_⟩
    · rw [List.length_append, List.length_append]
      omega
    · obtain ⟨w', hw', -, payload', hpayload', hvalue⟩ := hfields f hf v hv
      cases hw.symm.trans hw'
      cases hpayload.unique hpayload'
      obtain ⟨k, rfl, hk⟩ := exists_fuel hheader hfuel
      rw [List.length_append] at hk
      refine (reads_field (hd.field?_eq hf) hne hheader hvalue ?_ hpos).congr
        (pending_append (hd.names.sublist horder) hv hnew)
      rw [Table.insert_of_not_mem v hnew]
      exact hrest k (by omega)
  obtain ⟨bytes, hwrites, -, hreads⟩ := writes_fields hd horder (fun f hf v hv => by
    obtain ⟨w, hw, hne, payload, hpayload, -⟩ := hfields f hf v hv
    exact ⟨w, payload, hw, hne, hpayload⟩) hstop hkeeps
  have hread (rest : List UInt8) : ReadsIf (∀ e ∈ fields, ok e.2) 1 fault (do
      return .struct d.name (← readFields d value ((bytes ++ rest).length + 1) []) : Reading Value)
      bytes (.struct d.name fields) :=
    ((hreads _ (by rw [List.length_append]; omega)).congr pending_nil.symm).andThen (Reads.pure _)
  exact ⟨bytes, hwrites, fun hok rest => (hread rest).reads hok rest,
    fun hnot rest => (hread rest).refuses hnot rest⟩

end ThriftRpc.Codec
