import ThriftRpc.Proofs.Codec.RoundTrip
import ThriftRpc.Proofs.Codec.Skip

/-!
# Reading with another schema

A writer and a reader with different versions of a schema agree on a field by its index. The reader
gets what was written without the fields that its version does not declare, at every depth
(`decode_evolved`): it reads a field that both know and skips one that only the writer knows.
-/

namespace ThriftRpc

/-- Two versions of a struct: an index that both declare stands for the same field, and no name is
used at two indices. -/
structure StructDef.Evolves (d d' : StructDef) : Prop where
  name : d'.name = d.name
  shared : ∀ f ∈ d.fieldDefs, ∀ f' ∈ d'.fieldDefs, f.index = f'.index →
    f.name = f'.name ∧ f.type = f'.type
  apart : ∀ f ∈ d.fieldDefs, ∀ f' ∈ d'.fieldDefs, f.name = f'.name → f.index = f'.index

instance (d d' : StructDef) : Decidable (d.Evolves d') :=
  decidable_of_iff (d'.name = d.name ∧ (∀ f ∈ d.fieldDefs, ∀ f' ∈ d'.fieldDefs,
      f.index = f'.index → f.name = f'.name ∧ f.type = f'.type) ∧
      ∀ f ∈ d.fieldDefs, ∀ f' ∈ d'.fieldDefs, f.name = f'.name → f.index = f'.index)
    ⟨fun h => ⟨h.1, h.2.1, h.2.2⟩, fun h => ⟨h.name, h.shared, h.apart⟩⟩

/-- Two versions of a schema: the same enums and aliases, and the same names of structs. -/
structure Schema.Evolves (s s' : Schema) : Prop where
  enums : ∀ name, s'.enums.find? name = s.enums.find? name
  typedefs : ∀ name, s'.typedefs.find? name = s.typedefs.find? name
  structs : ∀ name, Option.Rel StructDef.Evolves (s.structLike? name) (s'.structLike? name)

/-- Shapes of one type in two versions of a schema. -/
inductive Shape.Evolves : Shape → Shape → Prop
  | prim (p : Primitive) : Evolves (.prim p) (.prim p)
  | enum (d : EnumDef) : Evolves (.enum d) (.enum d)
  | struct {d d' : StructDef} (h : d.Evolves d') : Evolves (.struct d) (.struct d')
  | list (elem : Ty) : Evolves (.list elem) (.list elem)
  | set (elem : Ty) : Evolves (.set elem) (.set elem)
  | map (key value : Ty) : Evolves (.map key value) (.map key value)

theorem Shape.Evolves.wireType_eq {shape shape' : Shape} (h : shape.Evolves shape') :
    shape'.wireType = shape.wireType := by
  cases h <;> rfl

namespace Codec

open Wire

variable {s s' : Schema} {ty : Ty} {v : Value} {d d' : StructDef}

/-- A struct or an exception before an enum. -/
theorem shape_of_lookup (s : Schema) (name : String) :
    (s.lookup name).map Definition.shape = (match s.structLike? name with
      | some d => some (.struct d)
      | none => (s.enums.find? name).map .enum) := by
  unfold Schema.lookup Schema.structLike?
  cases s.structs.find? name with
  | some d => rfl
  | none =>
    cases s.exceptions.find? name with
    | some d => rfl
    | none => cases s.enums.find? name <;> rfl

theorem lookup_evolves (hev : s.Evolves s') (name : String) :
    Option.Rel Shape.Evolves ((s.lookup name).map Definition.shape)
      ((s'.lookup name).map Definition.shape) := by
  rw [shape_of_lookup, shape_of_lookup, hev.enums name]
  have hstructs := hev.structs name
  generalize s.structLike? name = o, s'.structLike? name = o' at hstructs
  cases hstructs with
  | some hd => exact .some (.struct hd)
  | none =>
    cases s.enums.find? name with
    | some d => exact .some (.enum d)
    | none => exact .none

theorem resolveWithin_evolves (hev : s.Evolves s') {hops : Nat} {shape : Shape}
    (h : resolveWithin s hops ty = .ok shape) :
    ∃ shape', resolveWithin s' hops ty = .ok shape' ∧ shape.Evolves shape' := by
  induction hops using Nat.strongRecOn generalizing ty with
  | ind hops ih =>
    cases ty with
    | named name =>
      have hrel := lookup_evolves hev name
      cases hc : s.lookup name with
      | some c =>
        rw [resolveWithin_of_lookup hc] at h
        cases h
        rw [hc] at hrel
        cases hc' : s'.lookup name with
        | none => rw [hc'] at hrel; cases hrel
        | some c' =>
          rw [hc'] at hrel
          cases hrel with
          | some hshape => exact ⟨c'.shape, resolveWithin_of_lookup hc', hshape⟩
      | none =>
        rw [hc] at hrel
        have hc' : s'.lookup name = none := by
          cases hc' : s'.lookup name with
          | none => rfl
          | some c' => rw [hc'] at hrel; cases hrel
        rcases resolveWithin_named_cases h with ⟨c, hsome, -⟩ | ⟨rest, target, rfl, ht, h⟩
        · rw [hc] at hsome
          cases hsome
        · obtain ⟨shape', hr, hshape⟩ := ih rest (Nat.lt_succ_self rest) h
          refine ⟨shape', ?_, hshape⟩
          unfold resolveWithin
          rw [hc', hev.typedefs name, ht]
          exact hr
    | prim p =>
      unfold resolveWithin at h ⊢
      cases h
      exact ⟨_, rfl, .prim p⟩
    | list elem =>
      unfold resolveWithin at h ⊢
      cases h
      exact ⟨_, rfl, .list elem⟩
    | set elem =>
      unfold resolveWithin at h ⊢
      cases h
      exact ⟨_, rfl, .set elem⟩
    | map key value =>
      unfold resolveWithin at h ⊢
      cases h
      exact ⟨_, rfl, .map key value⟩

theorem resolve_evolves (hev : s.Evolves s') {shape : Shape} (h : resolve s ty = .ok shape) :
    ∃ shape', resolve s' ty = .ok shape' ∧ shape.Evolves shape' :=
  resolveWithin_evolves hev h

/-! ## What another version keeps -/

mutual

/-- A value of the type without the fields that the schema does not declare. -/
def restrict (s : Schema) (ty : Ty) (v : Value) : Value :=
  match resolve s ty, v with
  | .ok (.struct d), .struct name fields => .struct name (restrictFields s d fields)
  | .ok (.list elem), .list items => .list (restrictItems s elem items)
  | .ok (.set elem), .set items => .set (Value.distinct (restrictItems s elem items))
  | .ok (.map key value), .map entries => .map (restrictEntries s key value entries)
  | _, v => v
termination_by structural v

def restrictItems (s : Schema) (elem : Ty) : List Value → List Value
  | [] => []
  | v :: vs => restrict s elem v :: restrictItems s elem vs
termination_by structural vs => vs

def restrictEntries (s : Schema) (key value : Ty) : List (Value × Value) → List (Value × Value)
  | [] => []
  | (k, v) :: es => (restrict s key k, restrict s value v) :: restrictEntries s key value es
termination_by structural es => es

def restrictFields (s : Schema) (d : StructDef) : List (String × Value) → List (String × Value)
  | [] => []
  | (name, v) :: fs =>
    match d.fieldNamed? name with
    | some f => (name, restrict s f.type v) :: restrictFields s d fs
    | none => restrictFields s d fs
termination_by structural fs => fs

end

theorem restrictFields_cons (e : String × Value) (fields : List (String × Value)) :
    restrictFields s d (e :: fields) = (match d.fieldNamed? e.1 with
      | some f => (e.1, restrict s f.type e.2) :: restrictFields s d fields
      | none => restrictFields s d fields) := rfl

theorem restrictFields_append (fields more : List (String × Value)) :
    restrictFields s d (fields ++ more) = restrictFields s d fields ++ restrictFields s d more := by
  induction fields with
  | nil => rfl
  | cons e fields ih =>
    rw [List.cons_append, restrictFields_cons, restrictFields_cons, ih]
    cases d.fieldNamed? e.1 <;> rfl

theorem keys_restrictFields_sublist (fields : List (String × Value)) :
    ((restrictFields s d fields).map Prod.fst).Sublist (fields.map Prod.fst) := by
  induction fields with
  | nil => exact List.Sublist.slnil
  | cons e fields ih =>
    unfold restrictFields
    cases d.fieldNamed? e.1 with
    | none => exact ih.cons _
    | some f => exact ih.cons_cons _

/-- A value without parts stays as it is. -/
theorem restrict_of_not_nests (h : v.nests = false) : restrict s ty v = v := by
  unfold restrict
  split
  · cases h
  · cases h
  · cases h
  · cases h
  · rfl

theorem restrict_list {elem : Ty} (hr : resolve s ty = .ok (.list elem)) (items : List Value) :
    restrict s ty (.list items) = .list (restrictItems s elem items) := by
  unfold restrict
  rw [hr]

theorem restrict_set {elem : Ty} (hr : resolve s ty = .ok (.set elem)) (items : List Value) :
    restrict s ty (.set items) = .set (Value.distinct (restrictItems s elem items)) := by
  unfold restrict
  rw [hr]

theorem restrict_map {key value : Ty} (hr : resolve s ty = .ok (.map key value))
    (entries : List (Value × Value)) :
    restrict s ty (.map entries) = .map (restrictEntries s key value entries) := by
  unfold restrict
  rw [hr]

theorem restrict_struct (hr : resolve s ty = .ok (.struct d)) (name : String)
    (fields : List (String × Value)) :
    restrict s ty (.struct name fields) = .struct name (restrictFields s d fields) := by
  unfold restrict
  rw [hr]

/-! ## Elements, entries and fields -/

theorem items_evolved {elem : Ty} {read : Reading (Option Value)} {items : List Value}
    (h : ∀ v ∈ items, Carried (write s elem v) read (some (restrict s' elem v))) :
    Carried (writeItems s elem items) (readPresent items.length read)
      (restrictItems s' elem items) := by
  induction items with
  | nil => exact Carried.pure []
  | cons v items ih =>
    rw [List.forall_mem_cons] at h
    unfold writeItems restrictItems
    exact h.1.bind ((ih h.2).andThen (Reads.pure _))

theorem entries_evolved {key value : Ty} {readKey readValue : Reading (Option Value)}
    {entries : List (Value × Value)}
    (hkey : ∀ e ∈ entries, Carried (write s key e.1) readKey (some (restrict s' key e.1)))
    (hvalue : ∀ e ∈ entries, Carried (write s value e.2) readValue (some (restrict s' value e.2))) :
    Carried (writeEntries s key value entries) (readPresent entries.length do
      let k ← readKey
      let v ← readValue
      return k.bind fun k => v.map fun v => (k, v)) (restrictEntries s' key value entries) := by
  induction entries with
  | nil => exact Carried.pure []
  | cons e entries ih =>
    rw [List.forall_mem_cons] at hkey hvalue
    unfold writeEntries restrictEntries
    rw [← bind_assoc]
    have hentry : Carried (do write s key e.1; write s value e.2 : Writing Unit)
        (do let k ← readKey
            let v ← readValue
            return k.bind fun k => v.map fun v => (k, v))
        (some (restrict s' key e.1, restrict s' value e.2)) :=
      Carried.bind hkey.1 (hvalue.1.andThen (Reads.pure _))
    exact hentry.bind ((ih hkey.2 hvalue.2).andThen (Reads.pure _))

/-- What is written for `v` is read by the other version as what it keeps of `v`. -/
def ReadAs (s s' : Schema) (n : Nat) (ty : Ty) (w : WireType) (v : Value) : Prop :=
  Carried (write s ty v) (readWithin s' n ty w) (some (restrict s' ty v))

theorem readItems_evolved {elem : Ty} {items : List Value} {shape shape' : Shape} {m : Nat}
    (hr : resolve s elem = .ok shape) (hr' : resolve s' elem = .ok shape')
    (hshape : shape.Evolves shape') (hl : items.length ≤ Writer.maxSize)
    (hitems : ∀ v ∈ items, ReadAs s s' m elem shape.wireType v) :
    Carried (do
      Writer.listHeader ⟨← wireType s elem, ← containerSize items.length⟩
      writeItems s elem items : Writing Unit)
      (readItems s' (nested s' (m + 1)) elem) (some (restrictItems s' elem items)) := by
  let header : ListHeader := ⟨shape.wireType, .ofNat items.length⟩
  have hheader := Carried.listHeader (h := header) (toInt_ofNat_size hl).1
  have hbody : Carried (writeItems s elem items) (do
      return some (← readPresent header.rounds (readWithin s' m elem shape.wireType)))
      (some (restrictItems s' elem items)) := by
    rw [listHeader_rounds shape hl]
    exact (items_evolved hitems).andThen (Reads.pure _)
  rw [wireType_eq hr, containerSize_eq hl]
  refine (hheader.adapt Fault.wire Fault.wire).bind ?_
  rw [wireType_eq hr', hshape.wireType_eq]
  show Carried _ (if compatible shape.wireType shape.wireType then _ else _) _
  rw [if_pos (compatible_self _)]
  exact hbody

theorem readEntries_evolved {key value : Ty} {entries : List (Value × Value)}
    {keyShape keyShape' valueShape valueShape' : Shape} {m : Nat}
    (hk : resolve s key = .ok keyShape) (hv : resolve s value = .ok valueShape)
    (hk' : resolve s' key = .ok keyShape') (hv' : resolve s' value = .ok valueShape')
    (hkey : keyShape.Evolves keyShape') (hvalue : valueShape.Evolves valueShape')
    (hl : entries.length ≤ Writer.maxSize)
    (hkeys : ∀ e ∈ entries, ReadAs s s' m key keyShape.wireType e.1)
    (hvalues : ∀ e ∈ entries, ReadAs s s' m value valueShape.wireType e.2) :
    Carried (do
      Writer.mapHeader ⟨← wireType s key, ← wireType s value, ← containerSize entries.length⟩
      writeEntries s key value entries : Writing Unit)
      (readEntries s' (nested s' (m + 1)) key value)
      (some (restrictEntries s' key value entries)) := by
  let header : MapHeader := ⟨keyShape.wireType, valueShape.wireType, .ofNat entries.length⟩
  have hheader := Carried.mapHeader (h := header) (toInt_ofNat_size hl).1
  have hbody : Carried (writeEntries s key value entries) (do
      return some (← readPresent header.rounds do
        let k ← readWithin s' m key keyShape.wireType
        let v ← readWithin s' m value valueShape.wireType
        return k.bind fun k => v.map fun v => (k, v)))
      (some (restrictEntries s' key value entries)) := by
    rw [mapHeader_rounds keyShape valueShape hl]
    exact (entries_evolved hkeys hvalues).andThen (Reads.pure _)
  rw [wireType_eq hk, wireType_eq hv, containerSize_eq hl]
  refine (hheader.adapt Fault.wire Fault.wire).bind ?_
  rw [wireType_eq hk', wireType_eq hv', hkey.wireType_eq, hvalue.wireType_eq]
  show Carried _ (if compatible keyShape.wireType keyShape.wireType &&
    compatible valueShape.wireType valueShape.wireType then _ else _) _
  rw [compatible_self, compatible_self]
  exact hbody

/-- The other version has the field, or neither its index nor its name. -/
theorem field?_evolves (h : d.Evolves d') (hd' : d'.Keyed) {f : FieldDef}
    (hf : f ∈ d.fieldDefs) :
    (∃ f', d'.field? f.index = some f' ∧ d'.fieldNamed? f.name = some f' ∧ f'.name = f.name ∧
        f'.type = f.type) ∨
      (d'.field? f.index = none ∧ d'.fieldNamed? f.name = none) := by
  cases hname : d'.fieldNamed? f.name with
  | some f' =>
    have hf' : f' ∈ d'.fieldDefs := List.mem_of_find?_eq_some hname
    have hsame : f'.name = f.name := by simpa using List.find?_some hname
    have hindex := h.apart f hf f' hf' hsame.symm
    refine .inl ⟨f', ?_, rfl, hsame, (h.shared f hf f' hf' hindex).2.symm⟩
    rw [hindex]
    exact hd'.field?_eq hf'
  | none =>
    refine .inr ⟨?_, rfl⟩
    cases hindex : d'.field? f.index with
    | none => rfl
    | some f' =>
      obtain ⟨hf', hkey⟩ := hd'.of_field? hindex
      have hsame := (h.shared f hf f' hf' hkey.symm).1
      have hnone := List.find?_eq_none.mp hname f' hf'
      simp [hsame] at hnone

theorem reads_known {value : ValueReader} {header payload rest : List UInt8} {fuel : Nat}
    {done fields : Table String Value} {index : Int16} {f : FieldDef} {w : WireType}
    (hf : d.field? index = some f) (hw : w ≠ .stop)
    (hheader : Reads Reader.fieldHeader header ⟨w, index⟩)
    (hvalue : Reads (value f.type w) payload (some v))
    (hrest : Reads (readFields d value fuel (done.insert f.name v)) rest fields) :
    Reads (readFields d value (fuel + 1) done) (header ++ (payload ++ rest)) fields := by
  refine (hheader.adapt Fault.wire).bind ?_
  simp only [if_neg hw, hf]
  exact hvalue.bind hrest

theorem reads_unknown {value : ValueReader} {header payload rest : List UInt8} {fuel : Nat}
    {done fields : Table String Value} {index : Int16} {w : WireType}
    (hf : d.field? index = none) (hw : w ≠ .stop)
    (hheader : Reads Reader.fieldHeader header ⟨w, index⟩)
    (hskip : Reads (Reader.skip w) payload ())
    (hrest : Reads (readFields d value fuel done) rest fields) :
    Reads (readFields d value (fuel + 1) done) (header ++ (payload ++ rest)) fields := by
  refine (hheader.adapt Fault.wire).bind ?_
  simp only [if_neg hw, hf]
  exact (hskip.adapt Fault.wire).bind hrest

/-- The reader knows a field by its index, whatever else the writer declares. -/
theorem fields_evolved {m : Nat} {fields : List (String × Value)} (hd : d.Regular s)
    (hd' : d'.Regular s') (hev : d.Evolves d') (horder : d.InOrder (fields.map Prod.fst))
    (hfields : ∀ f ∈ d.fieldDefs, ∀ v, Table.find? f.name fields = some v → ∀ {shape},
      resolve s f.type = .ok shape → ReadAs s s' m f.type shape.wireType v ∧
        Carried (write s f.type v) (Reader.skip shape.wireType) ()) :
    Carried (writeFields d fun f => writeField s f fields) (readFieldsOf d' (readWithin s' m))
      (.struct d.name (restrictFields s' d' fields)) := by
  let P (done : Table String Value) (bytes : List UInt8) : Prop :=
    ∀ fuel, bytes.length ≤ fuel →
      Reads (readFields d' (readWithin s' m) fuel (restrictFields s' d' done)) bytes
        (restrictFields s' d' fields)
  have hstop {stop : List UInt8} (hwrites : Writes Writer.fieldStop stop) : P fields stop := by
    intro fuel hfuel
    have hr := Carried.fieldStop.reads hwrites
    have hlen : (stop ++ []).length ≤ fuel := by rwa [List.append_nil]
    obtain ⟨k, rfl, -⟩ := exists_fuel hr hlen
    exact reads_stop hr
  have hkeeps : ∀ f ∈ d.fieldDefs, Keeps s fields P f := by
    intro f hf v w header payload rest done hv hw hne hwrites hpayload hnew hrest fuel hfuel
    have hheader := (Carried.fieldHeader hne).reads hwrites
    obtain ⟨shape, hshape⟩ := exists_resolve (hd.types f hf)
    cases hw.symm.trans (wireType_eq hshape)
    obtain ⟨⟨payload', hpayload', hread⟩, ⟨payload'', hpayload'', hskip⟩⟩ :=
      hfields f hf v hv hshape
    cases hpayload.unique hpayload'
    cases hpayload.unique hpayload''
    obtain ⟨k, rfl, hk⟩ := exists_fuel hheader hfuel
    rw [List.length_append] at hk
    have hnext := hrest k (by omega)
    rw [restrictFields_append, restrictFields_cons] at hnext
    rcases field?_evolves hev hd'.isKeyed hf with ⟨f', hindex, hname, hsame, htype⟩ | ⟨hindex, hname⟩
    · have hfresh : f.name ∉ (restrictFields s' d' done).map Prod.fst := fun hm =>
        hnew ((keys_restrictFields_sublist done).subset hm)
      rw [hname] at hnext
      refine reads_known hindex hne hheader (htype ▸ hread) ?_
      rw [hsame, Table.insert_of_not_mem _ hfresh]
      simpa [restrictFields, htype] using hnext
    · rw [hname] at hnext
      refine reads_unknown hindex hne hheader hskip ?_
      simpa [restrictFields] using hnext
  obtain ⟨bytes, hwrites, hreads⟩ := writes_fields hd.isKeyed horder (fun f hf v hv => by
    obtain ⟨shape, hshape⟩ := exists_resolve (hd.types f hf)
    obtain ⟨payload, hpayload, -⟩ := (hfields f hf v hv hshape).1
    exact ⟨_, payload, wireType_eq hshape, wireType_ne_stop shape, hpayload⟩) hstop hkeeps
  refine ⟨bytes, hwrites, fun rest => ?_⟩
  have hread : Reads (do
      return .struct d'.name (← readFields d' (readWithin s' m) ((bytes ++ rest).length + 1) []) :
        Reading Value) bytes (.struct d'.name (restrictFields s' d' fields)) :=
    (hreads _ (by rw [List.length_append]; omega)).andThen (Reads.pure _)
  rw [← hev.name]
  exact hread rest

/-! ## Values -/

/-- What is written with one version is read with the other as what that one keeps, if the value
nests within the limit; a field that it skips is then within the limit for skipping. -/
theorem write_evolved (hs : s.Regular) (hs' : s'.Regular) (hev : s.Evolves s')
    (h : Conforms s StructDef.InOrder ty v) {shape : Shape} (hty : s.Resolves ty)
    (hr : resolve s ty = .ok shape) (hl : v.longest ≤ Writer.maxSize) {n : Nat}
    (hdepth : v.depth ≤ n) (hn : n ≤ Reader.skipLimit) : ReadAs s s' n ty shape.wireType v := by
  unfold ReadAs
  induction h generalizing n shape with
  | prim hr' hp =>
    cases hr.symm.trans hr'
    obtain ⟨shape', hr', hshape⟩ := resolve_evolves hev hr
    cases hshape
    have hnests := hp.nests_eq
    rw [readWithin_of_resolve hr', restrict_of_not_nests hnests]
    unfold write
    rw [hr]
    exact primitive_carried _ hp (Value.longest_le.mp hl).1
  | @member ty _ _ hr' hm =>
    cases hr.symm.trans hr'
    obtain ⟨shape', hr', hshape⟩ := resolve_evolves hev hr
    cases hshape
    rw [readWithin_of_resolve hr', restrict_of_not_nests rfl]
    unfold write
    rw [hr]
    exact member_carried ty _ (resolve_regular hs hty hr) hm
  | @unknownMember ty _ hr' =>
    cases hr.symm.trans hr'
    obtain ⟨shape', hr', hshape⟩ := resolve_evolves hev hr
    cases hshape
    rw [readWithin_of_resolve hr', restrict_of_not_nests rfl]
    unfold write
    rw [hr]
    exact unknownMember_carried ty _ _
  | list hr' hitems ih =>
    cases hr.symm.trans hr'
    obtain ⟨shape', hr', hshape⟩ := resolve_evolves hev hr
    cases hshape
    have helem := resolve_regular hs hty hr
    obtain ⟨hlen, hlparts⟩ := Value.longest_le.mp hl
    obtain ⟨m, rfl, hparts⟩ := Value.depth_list_le.mp hdepth
    obtain ⟨shape, hshape⟩ := exists_resolve helem
    obtain ⟨shape', hshape', helems⟩ := resolve_evolves hev hshape
    have hread := readItems_evolved hshape hshape' helems hlen fun v hv =>
      ih v hv helem hshape (hlparts v hv) (hparts v hv) (by omega)
    rw [readWithin_of_resolve hr', restrict_list hr']
    unfold write
    rw [hr]
    exact hread.andThen (Reads.pure _)
  | set hr' hitems hapart ih =>
    cases hr.symm.trans hr'
    obtain ⟨shape', hr', hshape⟩ := resolve_evolves hev hr
    cases hshape
    have helem := resolve_regular hs hty hr
    obtain ⟨hlen, hlparts⟩ := Value.longest_le.mp hl
    obtain ⟨m, rfl, hparts⟩ := Value.depth_set_le.mp hdepth
    obtain ⟨shape, hshape⟩ := exists_resolve helem
    obtain ⟨shape', hshape', helems⟩ := resolve_evolves hev hshape
    have hread := readItems_evolved hshape hshape' helems hlen fun v hv =>
      ih v hv helem hshape (hlparts v hv) (hparts v hv) (by omega)
    rw [readWithin_of_resolve hr', restrict_set hr']
    unfold write
    rw [hr]
    exact hread.andThen (Reads.pure _)
  | map hr' hkeys hvalues ihk ihv =>
    cases hr.symm.trans hr'
    obtain ⟨shape', hr', hshape⟩ := resolve_evolves hev hr
    cases hshape
    obtain ⟨hkey, hvalue⟩ := resolve_regular hs hty hr
    obtain ⟨hlen, hlparts⟩ := Value.longest_le.mp hl
    obtain ⟨m, rfl, hparts⟩ := Value.depth_map_le.mp hdepth
    obtain ⟨keyShape, hk⟩ := exists_resolve hkey
    obtain ⟨valueShape, hv⟩ := exists_resolve hvalue
    obtain ⟨keyShape', hk', hkeyEvolves⟩ := resolve_evolves hev hk
    obtain ⟨valueShape', hv', hvalueEvolves⟩ := resolve_evolves hev hv
    have hread := readEntries_evolved hk hv hk' hv' hkeyEvolves hvalueEvolves hlen
      (fun e he => ihk e he hkey hk (hlparts _ (Value.key_mem_parts he)) (hparts e he).1 (by omega))
      (fun e he => ihv e he hvalue hv (hlparts _ (Value.value_mem_parts he)) (hparts e he).2
        (by omega))
    rw [readWithin_of_resolve hr', restrict_map hr']
    unfold write
    rw [hr]
    exact hread.andThen (Reads.pure _)
  | @struct ty d fields hr' horder hfields ih =>
    cases hr.symm.trans hr'
    obtain ⟨shape', hr', hshape⟩ := resolve_evolves hev hr
    cases hshape with
    | @struct _ d' hd =>
    have hregular := resolve_regular hs hty hr
    have hregular' : d'.Regular s' := hs'.structs d' (mem_structDefs_of_resolve hr')
    have hlparts := (Value.longest_le.mp hl).2
    obtain ⟨m, rfl, hparts⟩ := Value.depth_struct_le.mp hdepth
    have hread := fields_evolved (m := m) hregular hregular' hd horder
      fun f hf v hv shape hshape => by
      have hmem : v ∈ (Value.struct d.name fields).parts := Value.field_mem_parts hv
      have hres := hregular.types f hf
      have hdepth' : v.depth ≤ m := hparts _ (Table.mem_of_find? hv)
      have hlevels : v.levels ≤ Reader.skipLimit := by
        have := v.levels_le_depth_succ
        omega
      exact ⟨ih f hf v hv hres hshape (hlparts v hmem) hdepth' (by omega),
        (write_skipped hs (hfields f hf v hv) hres hshape (hlparts v hmem) _).carried hlevels⟩
    show Carried _ (readWithin s' (m + 1) ty (Shape.struct d').wireType) _
    rw [readWithin_of_resolve hr', restrict_struct hr']
    unfold write
    rw [hr]
    exact hread.andThen (Reads.pure _)

/-- Decoding with another version of the schema gives what that version keeps of the value, and
leaves what follows it. -/
theorem decode_evolved (hs : s.Regular) (hs' : s'.Regular) (hev : s.Evolves s') {p : Value}
    (hty : s.Resolves ty) (h : prepare s ty v = .ok p) (hdepth : p.depth ≤ depthLimit)
    (hl : p.longest ≤ Writer.maxSize) {out : Output} (hout : out.room = none) :
    ∃ bytes w, encode s ty v out = (.ok (), { out with sent := out.sent ++ bytes }) ∧
      wireType s ty = .ok w ∧ wireType s' ty = .ok w ∧
      ∀ rest, decode s' ty w (bytes ++ rest) = (.ok (some (restrict s' ty p)), rest) := by
  obtain ⟨shape, hr⟩ := exists_resolve hty
  obtain ⟨shape', hr', hshape⟩ := resolve_evolves hev hr
  have hconforms := prepare_conforms (fun d hd => (hs.structs d hd).names) h
  obtain ⟨bytes, hwrites, hreads⟩ :=
    write_evolved hs hs' hev hconforms hty hr hl hdepth (Nat.le_refl _)
  refine ⟨bytes, shape.wireType, ?_, wireType_eq hr, ?_, hreads⟩
  · unfold encode
    rw [h]
    exact hwrites out hout
  · rw [← hshape.wireType_eq]
    exact wireType_eq hr'

/-- Version 1 of a schema has a set of points with a label and a nested origin. -/
def plotSchema : Schema where
  structs := [
    ("Point", .ofFields "Point" .struct
      [{ index := 1, name := "x", type := .prim .i32 },
        { index := 2, name := "label", type := .prim .string },
        { index := 3, name := "origin", type := .named "Point" }]),
    ("Plot", .ofFields "Plot" .struct
      [{ index := 1, name := "points", type := .set (.named "Point") }])]

/-- Version 2 drops the label and the origin and adds a weight. -/
def laterPlotSchema : Schema where
  structs := [
    ("Plot", .ofFields "Plot" .struct
      [{ index := 1, name := "points", type := .set (.named "Point") }]),
    ("Point", .ofFields "Point" .struct
      [{ index := 4, name := "weight", type := .prim .double },
        { index := 1, name := "x", type := .prim .i32 }])]

theorem plotSchema_evolves : plotSchema.Evolves laterPlotSchema where
  enums := fun _ => rfl
  typedefs := fun _ => rfl
  structs := by
    intro name
    simp only [Schema.structLike?, plotSchema, laterPlotSchema, Table.find?]
    by_cases hpoint : "Point" = name
    · subst hpoint
      exact .some (by decide)
    · by_cases hplot : "Plot" = name
      · subst hplot
        exact .some (by decide)
      · simp only [if_neg hpoint, if_neg hplot]
        exact .none

/-- Two points that only the label told apart are one. -/
theorem decode_evolved_plot :
    let ty : Ty := .named "Plot"
    let given : Value := .struct "Plot" [("points", .list [
      .struct "Point" [("label", .string "a"), ("x", .i32 1),
        ("origin", .struct "Point" [("x", .i32 7)])],
      .struct "Point" [("x", .i32 1), ("label", .string "b")],
      .struct "Point" [("x", .i32 2)]])]
    let kept : Value := .struct "Plot" [("points", .set [
      .struct "Point" [("x", .i32 1)], .struct "Point" [("x", .i32 2)]])]
    ∃ bytes w, encode plotSchema ty given {} = (.ok (), { sent := bytes }) ∧
      wireType plotSchema ty = .ok w ∧ wireType laterPlotSchema ty = .ok w ∧
      ∀ rest, decode laterPlotSchema ty w (bytes ++ rest) = (.ok (some kept), rest) := by
  intro ty given kept
  let prepared : Value := .struct "Plot" [("points", .set [
    .struct "Point" [("x", .i32 1), ("label", .string "a"),
      ("origin", .struct "Point" [("x", .i32 7)])],
    .struct "Point" [("x", .i32 1), ("label", .string "b")],
    .struct "Point" [("x", .i32 2)]])]
  have hkept : restrict laterPlotSchema ty prepared = kept := rfl
  have hprepared : prepare plotSchema ty given = .ok prepared := rfl
  rw [← hkept]
  exact decode_evolved (by decide) (by decide) plotSchema_evolves (by decide) hprepared
    (by decide) (by decide) rfl

end Codec

end ThriftRpc
