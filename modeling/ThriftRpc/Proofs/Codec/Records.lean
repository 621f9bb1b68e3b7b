import Mathlib.Data.List.ReduceOption
import ThriftRpc.Proofs.Codec.Decoded
import ThriftRpc.Proofs.Codec.Local
import ThriftRpc.Proofs.Wire.Exact

/-!
# Structs as records

On the wire a struct is a sequence of records, each a field's type, index and value, up to the stop.
What is read as a struct is such a sequence, each payload exactly what is read or skipped for its
record (`readFieldsOf_ok_iff`), and the value depends on what the records give and on nothing else. So
the order of records with different indices does not matter (`readStruct_perm`).
-/

namespace ThriftRpc.Codec

open Wire

variable {s : Schema} {d : StructDef} {value : ValueReader}

/-- A field on the wire: its announced type, its index, and the bytes of its value. -/
structure Record where
  wireType : WireType
  index : Int16
  payload : List UInt8

namespace Record

def header (r : Record) : FieldHeader := ⟨r.wireType, r.index⟩

def bytes (r : Record) : List UInt8 := r.wireType.code :: half r.index ++ r.payload

theorem reads_header {r : Record} (h : r.wireType ≠ .stop) :
    Reads Reader.fieldHeader (r.wireType.code :: half r.index) r.header :=
  (Carried.fieldHeader h).reads (Writer.writes_fieldHeader r.header)

end Record

/-- The bytes of a struct. -/
def structBytes (records : List Record) : List UInt8 :=
  records.flatMap Record.bytes ++ [WireType.stop.code]

theorem structBytes_cons (r : Record) (records : List Record) :
    structBytes (r :: records) =
      (r.wireType.code :: half r.index) ++ (r.payload ++ structBytes records) := by
  simp [structBytes, Record.bytes]

/-- A record has at least a byte, and so has the stop. -/
theorem length_lt_structBytes (records : List Record) :
    records.length < (structBytes records).length := by
  induction records with
  | nil => exact Nat.one_pos
  | cons r records ih =>
    rw [structBytes_cons, List.length_append, List.length_append, List.length_cons, List.length_cons]
    omega

theorem length_structBytes_perm {records records' : List Record} (h : records'.Perm records) :
    (structBytes records').length = (structBytes records).length := by
  unfold structBytes
  rw [List.length_append, List.length_append, (h.flatMap_right Record.bytes).length_eq]

/-- Reads what stands behind a header: the value of a declared field under its name, if there is
any. A field that is not declared is skipped. -/
def readRecord (d : StructDef) (value : ValueReader) (header : FieldHeader) :
    Reading (Option (String × Value)) :=
  match d.field? header.index with
  | some f => do return (← value f.type header.wireType).map (f.name, ·)
  | none => do
    Reader.skip header.wireType
    return none

/-- Adds what a record gave. -/
def settle (done : Table String Value) (given : Option (String × Value)) : Table String Value :=
  given.elim done fun e => done.insert e.1 e.2

theorem readFields_succ (fuel : Nat) (done : Table String Value) :
    readFields d value (fuel + 1) done = (do
      let header : FieldHeader ← Reader.fieldHeader
      if header.wireType = .stop then return done
      let given ← readRecord d value header
      readFields d value fuel (settle done given)) := by
  refine congrArg (bind _) (funext fun header => ?_)
  by_cases hstop : header.wireType = .stop
  · simp only [if_pos hstop]
  · simp only [if_neg hstop]
    unfold readRecord
    cases d.field? header.index with
    | none => simp only [bind_assoc, pure_bind]; rfl
    | some f =>
      simp only [bind_assoc, pure_bind]
      refine congrArg (bind _) (funext fun o => ?_)
      cases o <;> rfl

/-- The payload of the record is exactly what is read for it, and that gives `given`. -/
structure Record.Gives (d : StructDef) (value : ValueReader) (r : Record)
    (given : Option (String × Value)) : Prop where
  ne_stop : r.wireType ≠ .stop
  reads : Reads (readRecord d value r.header) r.payload given

theorem readRecord_local (h : LocalEach value) (header : FieldHeader) :
    Local (readRecord d value header) := by
  unfold readRecord
  cases d.field? header.index with
  | none => exact ((Reader.skipWithin_local _ _).adapt _).bind fun _ => .pure none
  | some f => exact (h f.type header.wireType).bind fun o => .pure _

theorem records_of_readFields (h : LocalEach value) {fuel : Nat} {done fields : Table String Value}
    {input left : List UInt8} (hrun : readFields d value fuel done input = (.ok fields, left)) :
    ∃ records given, input = structBytes records ++ left ∧
      List.Forall₂ (Record.Gives d value) records given ∧ fields = given.foldl settle done := by
  induction fuel generalizing done input with
  | zero => cases hrun
  | succ fuel ih =>
    rw [readFields_succ] at hrun
    obtain ⟨header, mid, hheader, hfields⟩ := run_bind_eq_ok hrun
    obtain ⟨front, rfl, hfront⟩ := Reader.fieldHeader_takes (run_adapt_eq_ok hheader)
    rcases hfront with ⟨hstop, rfl⟩ | ⟨hstop, rfl⟩
    · rw [if_pos hstop] at hfields
      cases hfields
      exact ⟨[], [], rfl, .nil, rfl⟩
    · rw [if_neg hstop] at hfields
      obtain ⟨o, rest, ho, hrest⟩ := run_bind_eq_ok hfields
      obtain ⟨payload, rfl, hreads⟩ := readRecord_local h header ho
      obtain ⟨records, given, rfl, hgiven, rfl⟩ := ih hrest
      let r : Record := ⟨header.wireType, header.index, payload⟩
      refine ⟨r :: records, o :: given, ?_, .cons ⟨hstop, hreads⟩ hgiven, rfl⟩
      rw [structBytes_cons, List.append_assoc, List.append_assoc]

theorem readFields_of_records {records : List Record} {given : List (Option (String × Value))}
    (h : List.Forall₂ (Record.Gives d value) records given) {fuel : Nat}
    (hfuel : records.length < fuel) (done : Table String Value) :
    Reads (readFields d value fuel done) (structBytes records) (given.foldl settle done) := by
  induction h generalizing fuel done with
  | nil =>
    obtain ⟨k, rfl⟩ : ∃ k, fuel = k + 1 := ⟨fuel - 1, by omega⟩
    exact reads_stop (Carried.fieldStop.reads (Writer.writes_wireType .stop))
  | @cons r o records given hr _ ih =>
    rw [List.length_cons] at hfuel
    obtain ⟨k, rfl⟩ : ∃ k, fuel = k + 1 := ⟨fuel - 1, by omega⟩
    rw [readFields_succ, structBytes_cons]
    refine ((r.reads_header hr.ne_stop).adapt Fault.wire).bind ?_
    have hstop : r.header.wireType ≠ .stop := hr.ne_stop
    rw [if_neg hstop]
    exact hr.reads.bind (ih (by omega) (settle done o))

/-- What is accepted as a struct is a sequence of records, and the value is made of what they give. -/
theorem readFieldsOf_ok_iff (h : LocalEach value) {v : Value} {input left : List UInt8} :
    readFieldsOf d value input = (.ok v, left) ↔
      ∃ records given, input = structBytes records ++ left ∧
        List.Forall₂ (Record.Gives d value) records given ∧
        v = .struct d.name (given.foldl settle []) := by
  constructor
  · intro hrun
    unfold readFieldsOf at hrun
    obtain ⟨whole, _, hget, hrun⟩ := run_bind_eq_ok hrun
    cases hget
    obtain ⟨fields, rest, hfields, hpure⟩ := run_bind_eq_ok hrun
    cases hpure
    obtain ⟨records, given, hinput, hgiven, rfl⟩ := records_of_readFields h hfields
    exact ⟨records, given, hinput, hgiven, rfl⟩
  · rintro ⟨records, given, rfl, hgiven, rfl⟩
    have hfuel : records.length < (structBytes records ++ left).length + 1 := by
      have hlt := length_lt_structBytes records
      rw [List.length_append]
      omega
    exact ((readFields_of_records hgiven hfuel []).map (Value.struct d.name)) left

/-! ## Order -/

section Order

variable {records : List Record} {given : List (Option (String × Value))}

/-- What is read for a record is determined. -/
theorem Record.Gives.unique {r : Record} {o o' : Option (String × Value)} (h : r.Gives d value o)
    (h' : r.Gives d value o') : o = o' :=
  Except.ok.inj (congrArg Prod.fst ((h.reads []).symm.trans (h'.reads [])))

/-- A record gives the value of its field. -/
theorem Record.Gives.field {r : Record} {e : String × Value} (h : r.Gives d value (some e)) :
    ∃ f, d.field? r.index = some f ∧ e.1 = f.name := by
  have hrun := h.reads []
  cases hf : d.field? r.index with
  | some f =>
    simp only [readRecord, header, hf] at hrun
    obtain ⟨o, mid, -, hpure⟩ := run_bind_eq_ok hrun
    obtain ⟨v, -, rfl⟩ := Option.map_eq_some_iff.mp (Except.ok.inj (congrArg Prod.fst hpure))
    exact ⟨f, rfl, rfl⟩
  | none =>
    simp only [readRecord, header, hf] at hrun
    obtain ⟨_, mid, -, hpure⟩ := run_bind_eq_ok hrun
    cases hpure

/-- Fields with different names have different indices. -/
theorem index_of_name (hd : d.fieldNames.Nodup) {i i' : Int16} {f f' : FieldDef}
    (hf : d.field? i = some f) (hf' : d.field? i' = some f') (hname : f.name = f'.name) : i = i' := by
  rw [StructDef.fieldNames_eq] at hd
  have hentry : (i, f) = (i', f') :=
    List.inj_on_of_nodup_map hd (Table.mem_of_find? hf) (Table.mem_of_find? hf') hname
  exact congrArg Prod.fst hentry

/-- Records of different indices give values to different names. -/
theorem nodup_names_of_records (hd : d.fieldNames.Nodup) (hindex : (records.map Record.index).Nodup)
    (h : List.Forall₂ (Record.Gives d value) records given) :
    (given.reduceOption.map Prod.fst).Nodup := by
  induction h with
  | nil => exact List.nodup_nil
  | @cons r o records given hr hrest ih =>
    rw [List.map_cons, List.nodup_cons] at hindex
    cases o with
    | none => exact ih hindex.2
    | some e =>
      rw [List.reduceOption_cons_of_some, List.map_cons, List.nodup_cons]
      refine ⟨fun hm => ?_, ih hindex.2⟩
      obtain ⟨e', he', hsame⟩ := List.mem_map.mp hm
      obtain ⟨r', hr', hgives⟩ := exists_of_mem_right hrest (List.reduceOption_mem_iff.mp he')
      obtain ⟨f, hf, hname⟩ := hr.field
      obtain ⟨f', hf', hname'⟩ := hgives.field
      have hi : r.index = r'.index :=
        index_of_name hd hf hf' (hname.symm.trans (hsame.symm.trans hname'))
      exact hindex.1 (hi ▸ List.mem_map_of_mem hr')

theorem foldl_settle (given : List (Option (String × Value))) (done : Table String Value) :
    given.foldl settle done = given.reduceOption.foldl (fun t e => Table.insert e.1 e.2 t) done := by
  induction given generalizing done with
  | nil => rfl
  | cons o given ih => cases o <;> exact ih _

/-- With distinct names the fields stand as the records gave them. -/
theorem foldl_settle_of_nodup (h : (given.reduceOption.map Prod.fst).Nodup) :
    given.foldl settle [] = given.reduceOption := by
  rw [foldl_settle]
  exact Table.ofList_eq h

/-- The payload of the record is exactly what is taken for it in a struct, in front of some input: a
declared field is read, and any other is skipped. -/
def Record.Taken (s : Schema) (d : StructDef) (r : Record) : Prop :=
  match d.field? r.index with
  | some f => ∃ o rest,
    readWithin s (depthLimit - 1) f.type r.wireType (r.payload ++ rest) = (.ok o, rest)
  | none => ∃ rest, Reader.skip r.wireType (r.payload ++ rest) = (.ok (), rest)

theorem Record.taken_iff {r : Record} : (∃ o, r.Gives d (readWithin s (depthLimit - 1)) o) ↔
    r.wireType ≠ .stop ∧ r.Taken s d := by
  unfold Taken
  cases hf : d.field? r.index with
  | some f =>
    constructor
    · rintro ⟨o, hstop, hreads⟩
      simp only [readRecord, header, hf] at hreads
      obtain ⟨v, mid, hv, hpure⟩ := run_bind_eq_ok (hreads [])
      cases hpure
      exact ⟨hstop, v, [], hv⟩
    · rintro ⟨hstop, o, rest, hrun⟩
      have hreads := (readWithin_local s (depthLimit - 1) f.type r.wireType).reads_front hrun
      refine ⟨o.map (f.name, ·), hstop, ?_⟩
      simp only [readRecord, header, hf]
      exact hreads.andThen (Reads.pure _)
  | none =>
    constructor
    · rintro ⟨o, hstop, hreads⟩
      simp only [readRecord, header, hf] at hreads
      obtain ⟨_, mid, hskip, hpure⟩ := run_bind_eq_ok (hreads [])
      cases hpure
      exact ⟨hstop, [], run_adapt_eq_ok hskip⟩
    · rintro ⟨hstop, rest, hrun⟩
      have hreads := (Reader.skipWithin_local _ r.wireType).reads_front hrun
      refine ⟨none, hstop, ?_⟩
      simp only [readRecord, header, hf]
      exact (hreads.adapt Fault.wire).andThen (Reads.pure _)

end Order

theorem readStruct_of_records {records : List Record} {given : List (Option (String × Value))}
    (h : List.Forall₂ (Record.Gives d (readWithin s (depthLimit - 1))) records given)
    (rest : List UInt8) :
    readStruct s d (structBytes records ++ rest) = (.ok (.struct d.name (given.foldl settle [])), rest) :=
  (readFieldsOf_ok_iff (readWithin_local s _)).mpr ⟨records, given, rfl, h, rfl⟩

/-- What is accepted as a struct is exactly a sequence of records that are taken one by one. -/
theorem readStruct_accepts_iff {input left : List UInt8} :
    (∃ v, readStruct s d input = (.ok v, left)) ↔
      ∃ records, input = structBytes records ++ left ∧
        ∀ r ∈ records, r.wireType ≠ .stop ∧ r.Taken s d := by
  constructor
  · rintro ⟨v, hrun⟩
    obtain ⟨records, given, hinput, hgiven, -⟩ :=
      (readFieldsOf_ok_iff (readWithin_local s _)).mp hrun
    refine ⟨records, hinput, fun r hr => Record.taken_iff.mp ?_⟩
    obtain ⟨o, -, ho⟩ := exists_of_mem_right
      (R := fun o r => Record.Gives d (readWithin s (depthLimit - 1)) r o) hgiven.flip hr
    exact ⟨o, ho⟩
  · rintro ⟨records, rfl, htaken⟩
    obtain ⟨given, hgiven⟩ := exists_forall₂ fun r hr => Record.taken_iff.mpr (htaken r hr)
    exact ⟨_, readStruct_of_records hgiven left⟩

/-- Records with different indices are accepted in any order, with the same length and the same value
for each name. -/
theorem readStruct_perm (hd : d.fieldNames.Nodup) {records records' : List Record}
    (hstop : ∀ r ∈ records, r.wireType ≠ .stop) (hindex : (records.map Record.index).Nodup)
    (htaken : ∀ r ∈ records, r.Taken s d) (hperm : records'.Perm records) :
    (structBytes records').length = (structBytes records).length ∧
    ∃ fields fields' : Table String Value,
      (∀ rest, readStruct s d (structBytes records ++ rest) = (.ok (.struct d.name fields), rest)) ∧
      (∀ rest, readStruct s d (structBytes records' ++ rest) =
        (.ok (.struct d.name fields'), rest)) ∧
      fields'.Perm fields ∧ ∀ name, fields'.find? name = fields.find? name := by
  have hgives : ∀ r ∈ records, ∃ o, r.Gives d (readWithin s (depthLimit - 1)) o := fun r hr =>
    Record.taken_iff.mpr ⟨hstop r hr, htaken r hr⟩
  obtain ⟨given, hgiven⟩ := exists_forall₂ hgives
  obtain ⟨given', hgiven'⟩ := exists_forall₂ fun r hr => hgives r (hperm.mem_iff.mp hr)
  have hnames := nodup_names_of_records hd hindex hgiven
  have hnames' := nodup_names_of_records hd ((hperm.map Record.index).nodup_iff.mpr hindex) hgiven'
  have hgivenPerm : given'.Perm given :=
    perm_of_forall₂ (fun _ _ _ h h' => h.unique h') hgiven' hperm hgiven
  have hfields : given'.reduceOption.Perm given.reduceOption := hgivenPerm.filterMap id
  have hread := readStruct_of_records hgiven
  have hread' := readStruct_of_records hgiven'
  rw [foldl_settle_of_nodup hnames] at hread
  rw [foldl_settle_of_nodup hnames'] at hread'
  exact ⟨length_structBytes_perm hperm, _, _, hread, hread', hfields,
    Table.find?_perm hfields hnames'⟩

/-- The fields of a point: a colour, a truth value where there should be numbers, and an index that is
not declared. -/
def mixedPoint : List Record :=
  [⟨.i32, 2, [0, 0, 0, 1]⟩, ⟨.bool, 1, [1]⟩, ⟨.string, 9, [0, 0, 0, 1, 120]⟩]

theorem readStruct_perm_mixedPoint :
    ∃ d, pointSchema.structLike? "Point" = some d ∧ (∀ r ∈ mixedPoint, r.Taken pointSchema d) ∧
      ∃ fields fields' : Table String Value,
        (∀ rest, readStruct pointSchema d (structBytes mixedPoint ++ rest) =
          (.ok (.struct d.name fields), rest)) ∧
        (∀ rest, readStruct pointSchema d (structBytes mixedPoint.reverse ++ rest) =
          (.ok (.struct d.name fields'), rest)) ∧
        fields'.Perm fields ∧ ∀ name, fields'.find? name = fields.find? name := by
  refine ⟨_, rfl, ?_⟩
  have htaken : ∀ r ∈ mixedPoint, r.Taken pointSchema (.ofFields "Point" .struct
      [{ index := 1, name := "at", type := .list (.prim .i32) },
        { index := 2, name := "colour", type := .named "Colour" }]) := by
    intro r hr
    unfold mixedPoint at hr
    simp only [List.mem_cons, List.not_mem_nil, or_false] at hr
    rcases hr with rfl | rfl | rfl
    · exact ⟨some (.enum "Colour" "green"), [], rfl⟩
    · exact ⟨none, [], rfl⟩
    · exact ⟨[], rfl⟩
  exact ⟨htaken, (readStruct_perm (by decide) (by decide) (by decide) htaken
    (List.reverse_perm mixedPoint)).2⟩

/-! ## Values of fields -/

/-- The payload is read as the value `v` of the field `f`. -/
structure Record.Carries (s : Schema) (f : FieldDef) (v : Value) (r : Record) : Prop where
  index : r.index = f.index
  reads : Reads (readWithin s (depthLimit - 1) f.type r.wireType) r.payload (some v)

/-- A record gives a value for a field exactly if it carries the value. -/
theorem Record.gives_iff (hd : d.Keyed) {f : FieldDef} (hf : f ∈ d.fieldDefs) {v : Value}
    {r : Record} : r.Gives d (readWithin s (depthLimit - 1)) (some (f.name, v)) ↔
      r.wireType ≠ .stop ∧ r.Carries s f v := by
  constructor
  · intro h
    obtain ⟨g, hg, hname⟩ := h.field
    obtain ⟨hmem, hindex⟩ := hd.of_field? hg
    cases List.inj_on_of_nodup_map hd.names hf hmem hname
    have hrun := h.reads []
    simp only [readRecord, header, hg] at hrun
    obtain ⟨o, mid, ho, hpure⟩ := run_bind_eq_ok hrun
    obtain ⟨hgiven, rfl⟩ := Prod.mk.inj hpure
    obtain ⟨w, rfl, hw⟩ := Option.map_eq_some_iff.mp (Except.ok.inj hgiven)
    cases hw
    exact ⟨h.ne_stop, hindex.symm, (readWithin_local s _ f.type r.wireType).reads_front ho⟩
  · rintro ⟨hstop, hindex, hreads⟩
    refine ⟨hstop, ?_⟩
    simp only [readRecord, header, hindex, hd.field?_eq hf]
    exact hreads.andThen (Reads.pure _)

section Settled

variable {given : List (Option (String × Value))} {done : Table String Value} {name : String}

/-- A field has a value if it had one or a record gives one. -/
theorem find?_settled_eq_none : (given.foldl settle done).find? name = none ↔
    done.find? name = none ∧ ∀ v, some (name, v) ∉ given := by
  induction given generalizing done with
  | nil => simp
  | cons o given ih =>
    rw [List.foldl_cons, ih]
    cases o with
    | none => simp [settle]
    | some e =>
      obtain ⟨k, v⟩ := e
      by_cases hk : k = name
      · subst hk
        have hfound : (settle done (some (k, v))).find? k ≠ none := by
          simp [settle, Table.find?_insert]
        exact ⟨fun h => absurd h.1 hfound, fun h => absurd List.mem_cons_self (h.2 v)⟩
      · simp [settle, Table.find?_insert, hk, Ne.symm hk]

/-- The value of a field is one that was given for it. -/
theorem mem_of_find?_settled {v : Value} (h : (given.foldl settle done).find? name = some v) :
    done.find? name = some v ∨ some (name, v) ∈ given := by
  induction given generalizing done with
  | nil => exact .inl h
  | cons o given ih =>
    rcases ih h with hdone | hmem
    · cases o with
      | none => exact .inl hdone
      | some e =>
        obtain ⟨k, w⟩ := e
        unfold settle at hdone
        simp only [Option.elim_some, Table.find?_insert] at hdone
        split at hdone
        · next hk =>
          cases hdone
          exact .inr (hk ▸ List.mem_cons_self)
        · exact .inl hdone
    · exact .inr (List.mem_cons_of_mem _ hmem)

end Settled

/-- What a record carries for a field has the type of the field. -/
theorem Record.Carries.conforms (hs : ∀ d ∈ s.structDefs, d.fieldNames.Nodup) {f : FieldDef}
    {v : Value} {r : Record} (h : r.Carries s f v) : Conforms s StructDef.Declared f.type v :=
  (readWithin_gives hs _ f.type r.wireType (h.reads []) v rfl).conforms

/-- A value in the struct is carried by a record for its field, and a field without a value by none. -/
structure MadeOf (s : Schema) (d : StructDef) (records : List Record) (v : Value) : Prop where
  present : ∀ name w, v.get? name = some w →
    ∃ f ∈ d.fieldDefs, f.name = name ∧ ∃ r ∈ records, r.Carries s f w
  absent : ∀ f ∈ d.fieldDefs, v.get? f.name = none → ∀ r ∈ records, ∀ w, ¬ r.Carries s f w

theorem records_of_readStruct (hd : d.Keyed) {v : Value} {input left : List UInt8}
    (h : readStruct s d input = (.ok v, left)) :
    ∃ records, input = structBytes records ++ left ∧
      (∀ r ∈ records, r.wireType ≠ .stop ∧ r.Taken s d) ∧ MadeOf s d records v := by
  obtain ⟨records, given, hinput, hgiven, rfl⟩ :=
    (readFieldsOf_ok_iff (readWithin_local s _)).mp h
  have hgives : ∀ r ∈ records, ∃ o ∈ given, r.Gives d (readWithin s (depthLimit - 1)) o :=
    fun r hr => exists_of_mem_right hgiven.flip hr
  refine ⟨records, hinput, fun r hr => ?_, fun name w hw => ?_, fun f hf hnone r hr w hcarries => ?_⟩
  · obtain ⟨o, -, ho⟩ := hgives r hr
    exact Record.taken_iff.mp ⟨o, ho⟩
  · have hmem := (mem_of_find?_settled hw).resolve_left fun h => nomatch h
    obtain ⟨r, hr, ho⟩ := exists_of_mem_right hgiven hmem
    obtain ⟨f, hfield, rfl⟩ := ho.field
    have hf := (hd.of_field? hfield).1
    exact ⟨f, hf, rfl, r, hr, ((Record.gives_iff hd hf).mp ho).2⟩
  · obtain ⟨o, hmem, ho⟩ := hgives r hr
    have hsame := ho.unique ((Record.gives_iff hd hf).mpr ⟨ho.ne_stop, hcarries⟩)
    exact (find?_settled_eq_none.mp hnone).2 w (hsame ▸ hmem)

end ThriftRpc.Codec
