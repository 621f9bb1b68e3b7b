import ThriftRpc.Proofs.Codec.Prepare
import ThriftRpc.Proofs.Codec.Writable

/-!
# Values with their fields in another order

`Rearranged v w`: the two are the same but for the order of the fields of their structs, at every
level. Such values are equal to the same values, nest as deep and can be written for the same types.
Preparing a conforming value does no more than to put its fields in order (`prepare_of_conforms`).
-/

namespace ThriftRpc

namespace Value

/-- The same value up to the order of the fields of its structs. -/
inductive Rearranged : Value → Value → Prop
  | same (v : Value) : Rearranged v v
  | list {items items' : List Value} : items.length = items'.length →
      (∀ e ∈ items.zip items', Rearranged e.1 e.2) → Rearranged (.list items) (.list items')
  | set {items items' : List Value} : items.length = items'.length →
      (∀ e ∈ items.zip items', Rearranged e.1 e.2) → Rearranged (.set items) (.set items')
  | map {entries entries' : List (Value × Value)} : entries.length = entries'.length →
      (∀ e ∈ entries.zip entries', Rearranged e.1.1 e.2.1) →
      (∀ e ∈ entries.zip entries', Rearranged e.1.2 e.2.2) →
      Rearranged (.map entries) (.map entries')
  | struct {name : String} {fields fields' : List (String × Value)} :
      (fields.map Prod.fst).Nodup → (fields.map Prod.fst).Perm (fields'.map Prod.fst) →
      (∀ field v v', Table.find? field fields = some v → Table.find? field fields' = some v' →
        Rearranged v v') →
      Rearranged (.struct name fields) (.struct name fields')

/-- The two are equal to the same values. -/
def Alike (v w : Value) : Prop := ∀ u, v.equal u = w.equal u ∧ u.equal v = u.equal w

theorem Alike.symm {v w : Value} (h : Alike v w) : Alike w v :=
  fun u => ⟨(h u).1.symm, (h u).2.symm⟩

section Alike

variable {items items' : List Value} {entries entries' : List (Value × Value)}
  {fields fields' : List (String × Value)}

theorem equalItems_congr (h : List.Forall₂ Alike items items') (us : List Value) :
    equalItems items us = equalItems items' us ∧ equalItems us items = equalItems us items' := by
  induction h generalizing us with
  | nil => exact ⟨rfl, rfl⟩
  | cons hv _ ih =>
    cases us with
    | nil => exact ⟨rfl, rfl⟩
    | cons u us => simp only [equalItems, hv u, ih us, and_self]

theorem equalEntries_congr
    (h : List.Forall₂ (fun e e' => Alike e.1 e'.1 ∧ Alike e.2 e'.2) entries entries')
    (us : List (Value × Value)) :
    equalEntries entries us = equalEntries entries' us ∧
      equalEntries us entries = equalEntries us entries' := by
  induction h generalizing us with
  | nil => exact ⟨rfl, rfl⟩
  | cons he _ ih =>
    cases us with
    | nil => exact ⟨rfl, rfl⟩
    | cons u us => simp only [equalEntries, he.1 u.1, he.2 u.2, ih us, and_self]

theorem fieldsWithin_iff {us : List (String × Value)} :
    fieldsWithin fields us = true ↔
      ∀ e ∈ fields, ∃ u, Table.find? e.1 us = some u ∧ e.2.equal u = true := by
  induction fields with
  | nil => simp [fieldsWithin]
  | cons e fields ih =>
    obtain ⟨field, v⟩ := e
    rw [List.forall_mem_cons, fieldsWithin, Bool.and_eq_true, ih]
    refine and_congr ?_ Iff.rfl
    cases Table.find? field us with
    | none => simp
    | some u => simp

/-- The same fields in another order, their values alike. -/
structure FieldsAlike (fields fields' : List (String × Value)) : Prop where
  nodup : (fields.map Prod.fst).Nodup
  perm : (fields.map Prod.fst).Perm (fields'.map Prod.fst)
  alike : ∀ field v v', Table.find? field fields = some v → Table.find? field fields' = some v' →
    Alike v v'

namespace FieldsAlike

theorem symm (h : FieldsAlike fields fields') : FieldsAlike fields' fields :=
  ⟨h.perm.nodup h.nodup, h.perm.symm, fun field v v' hv hv' => (h.alike field v' v hv' hv).symm⟩

theorem exists_find? (h : FieldsAlike fields fields') {field : String} {v : Value}
    (hv : Table.find? field fields = some v) :
    ∃ v', Table.find? field fields' = some v' ∧ Alike v v' := by
  have hmem : field ∈ fields.map Prod.fst := Table.isSome_find?.mp (by rw [hv]; rfl)
  obtain ⟨v', hv'⟩ :=
    Option.isSome_iff_exists.mp (Table.isSome_find?.mpr (h.perm.mem_iff.mp hmem))
  exact ⟨v', hv', h.alike field v v' hv hv'⟩

theorem within_left (h : FieldsAlike fields fields') {us : List (String × Value)}
    (hw : fieldsWithin fields us = true) : fieldsWithin fields' us = true := by
  rw [fieldsWithin_iff] at hw ⊢
  intro e he
  obtain ⟨v, hv, halike⟩ := h.symm.exists_find? (Table.find?_of_mem h.symm.nodup he)
  obtain ⟨u, hu, hequal⟩ := hw _ (Table.mem_of_find? hv)
  exact ⟨u, hu, ((halike u).1).trans hequal⟩

theorem within_right (h : FieldsAlike fields fields') {us : List (String × Value)}
    (hw : fieldsWithin us fields = true) : fieldsWithin us fields' = true := by
  rw [fieldsWithin_iff] at hw ⊢
  intro e he
  obtain ⟨v, hv, hequal⟩ := hw e he
  obtain ⟨v', hv', halike⟩ := h.exists_find? hv
  exact ⟨v', hv', ((halike e.2).2).symm.trans hequal⟩

theorem within_eq (h : FieldsAlike fields fields') (us : List (String × Value)) :
    fieldsWithin fields us = fieldsWithin fields' us ∧
      fieldsWithin us fields = fieldsWithin us fields' :=
  ⟨Bool.eq_iff_iff.mpr ⟨h.within_left, h.symm.within_left⟩,
    Bool.eq_iff_iff.mpr ⟨h.within_right, h.symm.within_right⟩⟩

end FieldsAlike

theorem Rearranged.alike {v w : Value} (h : Rearranged v w) : Alike v w := by
  induction h with
  | same v => exact fun u => ⟨rfl, rfl⟩
  | list hlen _ ih =>
    intro u
    have hitems := List.forall₂_iff_zip.mpr ⟨hlen, fun he => ih _ he⟩
    cases u with
    | list us => exact equalItems_congr hitems us
    | _ => exact ⟨rfl, rfl⟩
  | set hlen _ ih =>
    intro u
    have hitems := List.forall₂_iff_zip.mpr ⟨hlen, fun he => ih _ he⟩
    cases u with
    | set us => exact equalItems_congr hitems us
    | _ => exact ⟨rfl, rfl⟩
  | @map entries entries' hlen _ _ ihk ihv =>
    intro u
    have hentries : List.Forall₂ (fun e e' => Alike e.1 e'.1 ∧ Alike e.2 e'.2) entries entries' :=
      List.forall₂_iff_zip.mpr ⟨hlen, fun he => ⟨ihk _ he, ihv _ he⟩⟩
    cases u with
    | map us => exact equalEntries_congr hentries us
    | _ => exact ⟨rfl, rfl⟩
  | struct hnodup hperm _ ih =>
    intro u
    have hlen : _ = _ := hperm.length_eq
    rw [List.length_map, List.length_map] at hlen
    cases u with
    | struct m us =>
      have hwithin := FieldsAlike.within_eq ⟨hnodup, hperm, ih⟩ us
      simp only [equal, hlen, hwithin, and_self]
    | _ => exact ⟨rfl, rfl⟩

theorem apart_of_alike (h : List.Forall₂ Alike items items') (hapart : Apart items) :
    Apart items' := by
  induction h with
  | nil => exact List.Pairwise.nil
  | @cons v w items items' hv hrest ih =>
    obtain ⟨hfirst, hapart⟩ := List.pairwise_cons.mp hapart
    refine List.pairwise_cons.mpr ⟨fun w' hw' => ?_, ih hapart⟩
    obtain ⟨v', hv', halike⟩ := exists_of_mem_right hrest hw'
    rw [← (hv w').1, ← (halike v).2]
    exact hfirst v' hv'

end Alike

/-! ## Depth and writing -/

/-- An element of the second list has one that it comes from. -/
theorem exists_zip_of_mem_right {α : Type} {as bs : List α} (hlen : as.length = bs.length) {b : α}
    (hb : b ∈ bs) : ∃ a, (a, b) ∈ as.zip bs := by
  obtain ⟨i, hi, rfl⟩ := List.getElem_of_mem hb
  exact ⟨as[i], List.mem_iff_getElem.mpr ⟨i, by simp [hlen, hi], by simp⟩⟩

theorem Rearranged.depth_le {v w : Value} (h : Rearranged v w) {n : Nat} (hn : v.depth ≤ n) :
    w.depth ≤ n := by
  induction h generalizing n with
  | same v => exact hn
  | list hlen _ ih =>
    obtain ⟨m, rfl, hparts⟩ := depth_list_le.mp hn
    refine depth_list_le.mpr ⟨m, rfl, fun w hw => ?_⟩
    obtain ⟨v, hv⟩ := exists_zip_of_mem_right hlen hw
    exact ih _ hv (hparts v (List.of_mem_zip hv).1)
  | set hlen _ ih =>
    obtain ⟨m, rfl, hparts⟩ := depth_set_le.mp hn
    refine depth_set_le.mpr ⟨m, rfl, fun w hw => ?_⟩
    obtain ⟨v, hv⟩ := exists_zip_of_mem_right hlen hw
    exact ih _ hv (hparts v (List.of_mem_zip hv).1)
  | map hlen _ _ ihk ihv =>
    obtain ⟨m, rfl, hparts⟩ := depth_map_le.mp hn
    refine depth_map_le.mpr ⟨m, rfl, fun e' he' => ?_⟩
    obtain ⟨e, he⟩ := exists_zip_of_mem_right hlen he'
    have hmem := (List.of_mem_zip he).1
    exact ⟨ihk _ he (hparts e hmem).1, ihv _ he (hparts e hmem).2⟩
  | struct hnodup hperm _ ih =>
    obtain ⟨m, rfl, hparts⟩ := depth_struct_le.mp hn
    refine depth_struct_le.mpr ⟨m, rfl, fun e' he' => ?_⟩
    have hfound := Table.find?_of_mem (hperm.nodup hnodup) he'
    have hkey := hperm.mem_iff.mpr (List.mem_map_of_mem (f := Prod.fst) he')
    obtain ⟨v, hv⟩ := Option.isSome_iff_exists.mp (Table.isSome_find?.mpr hkey)
    exact ih _ v _ hv hfound (hparts _ (Table.mem_of_find? hv))

end Value

namespace Codec

open Value (Rearranged)

variable {s : Schema} {ty : Ty} {v w : Value}

theorem Writable.rearranged (h : Rearranged v w) (hv : Writable s ty v) : Writable s ty w := by
  induction h generalizing ty with
  | same v => exact hv
  | list hlen _ ih =>
    cases hv with
    | list hr he hl hitems =>
      refine .list hr he (hlen ▸ hl) fun w hw => ?_
      obtain ⟨v, hv⟩ := Value.exists_zip_of_mem_right hlen hw
      exact ih _ hv (hitems v (List.of_mem_zip hv).1)
    | prim _ hp => cases hp
  | set hlen _ ih =>
    cases hv with
    | set hr he hl hitems =>
      refine .set hr he (hlen ▸ hl) fun w hw => ?_
      obtain ⟨v, hv⟩ := Value.exists_zip_of_mem_right hlen hw
      exact ih _ hv (hitems v (List.of_mem_zip hv).1)
    | prim _ hp => cases hp
  | map hlen _ _ ihk ihv =>
    cases hv with
    | map hr hk hv hl hkeys hvalues =>
      refine .map hr hk hv (hlen ▸ hl) (fun e' he' => ?_) fun e' he' => ?_
      · obtain ⟨e, he⟩ := Value.exists_zip_of_mem_right hlen he'
        exact ihk _ he (hkeys e (List.of_mem_zip he).1)
      · obtain ⟨e, he⟩ := Value.exists_zip_of_mem_right hlen he'
        exact ihv _ he (hvalues e (List.of_mem_zip he).1)
    | prim _ hp => cases hp
  | struct _ hperm _ ih =>
    cases hv with
    | struct hr hfields =>
      refine .struct hr fun f hf w hw => ?_
      have hkey := hperm.mem_iff.mpr (Table.isSome_find?.mp (by rw [hw]; rfl))
      obtain ⟨v, hv⟩ := Option.isSome_iff_exists.mp (Table.isSome_find?.mpr hkey)
      exact ih _ v w hv hw (hfields f hf v hv)
    | prim _ hp => cases hp

/-! ## Preparing -/

theorem prepareItems_of_forall {elem : Ty} {items : List Value}
    (h : ∀ v ∈ items, ∃ p, prepare s elem v = .ok p ∧ Rearranged v p) :
    ∃ ps, prepareItems s elem items = .ok ps ∧ List.Forall₂ Rearranged items ps := by
  induction items with
  | nil => exact ⟨[], rfl, .nil⟩
  | cons v items ih =>
    rw [List.forall_mem_cons] at h
    obtain ⟨⟨p, hp, hvp⟩, hrest⟩ := h
    obtain ⟨ps, hps, hitems⟩ := ih hrest
    refine ⟨p :: ps, ?_, .cons hvp hitems⟩
    unfold prepareItems
    rw [hp, hps]
    rfl

theorem prepareEntries_of_forall {key value : Ty} {entries : List (Value × Value)}
    (hkey : ∀ e ∈ entries, ∃ p, prepare s key e.1 = .ok p ∧ Rearranged e.1 p)
    (hvalue : ∀ e ∈ entries, ∃ p, prepare s value e.2 = .ok p ∧ Rearranged e.2 p) :
    ∃ ps, prepareEntries s key value entries = .ok ps ∧
      List.Forall₂ (fun e p => Rearranged e.1 p.1 ∧ Rearranged e.2 p.2) entries ps := by
  induction entries with
  | nil => exact ⟨[], rfl, .nil⟩
  | cons e entries ih =>
    rw [List.forall_mem_cons] at hkey hvalue
    obtain ⟨⟨k, hk, hke⟩, hkeys⟩ := hkey
    obtain ⟨⟨w, hw, hwe⟩, hvalues⟩ := hvalue
    obtain ⟨ps, hps, hentries⟩ := ih hkeys hvalues
    refine ⟨(k, w) :: ps, ?_, .cons ⟨hke, hwe⟩ hentries⟩
    unfold prepareEntries
    rw [hk, hw, hps]
    rfl

section Fields

variable {d : StructDef} {given fields : List (String × Value)}

/-- Preparing keeps the names of the fields. -/
theorem keys_prepared (hgiven : given.map Prod.fst ⊆ d.fieldNames)
    (hfields : fields.map Prod.fst ⊆ d.fieldNames)
    (h : ∀ f ∈ d.fieldDefs, prepareField s f given = .ok (Table.find? f.name fields))
    (name : String) : name ∈ given.map Prod.fst ↔ name ∈ fields.map Prod.fst := by
  have hsame : ∀ f ∈ d.fieldDefs,
      ((Table.find? f.name given).isSome = true ↔ (Table.find? f.name fields).isSome = true) := by
    intro f hf
    rcases prepareField_ok (h f hf) with ⟨hv, hw⟩ | ⟨v, w, hv, hw, -⟩
    · rw [hv, hw]
    · rw [hv, hw]
      exact iff_of_true rfl rfl
  constructor
  · intro hname
    obtain ⟨f, hf, rfl⟩ := List.mem_map.mp (hgiven hname)
    exact Table.isSome_find?.mp ((hsame f hf).mp (Table.isSome_find?.mpr hname))
  · intro hname
    obtain ⟨f, hf, rfl⟩ := List.mem_map.mp (hfields hname)
    exact Table.isSome_find?.mp ((hsame f hf).mpr (Table.isSome_find?.mpr hname))

/-- A struct with declared fields only is prepared into one with the same fields in order. -/
theorem prepareStruct_of_fields (hd : d.fieldNames.Nodup)
    (hnames : d.Declared (given.map Prod.fst))
    (h : ∀ f ∈ d.fieldDefs, ∀ v, Table.find? f.name given = some v →
      ∃ p, prepare s f.type v = .ok p ∧ Rearranged v p) :
    ∃ p, prepareStruct s d (.struct d.name given) = .ok p ∧
      Rearranged (.struct d.name given) p := by
  have hfield : ∀ f ∈ d.fieldDefs, ∃ o, prepareField s f given = .ok o := by
    intro f hf
    rw [prepareField_eq]
    cases hv : Table.find? f.name given with
    | none => exact ⟨none, rfl⟩
    | some v =>
      obtain ⟨p, hp, -⟩ := h f hf v hv
      exact ⟨some p, congrArg (some <$> ·) hp⟩
  obtain ⟨p, hp⟩ := assemble_of_forall hnames.2 hfield
  obtain ⟨-, -, fields, rfl, horder, hfields⟩ := assemble_ok hd hp
  refine ⟨.struct d.name fields, hp, .struct hnames.1 ?_ fun field v w hv hw => ?_⟩
  · exact (List.perm_ext_iff_of_nodup hnames.1 (hd.sublist horder)).mpr
      (keys_prepared hnames.2 horder.subset hfields)
  · have hname := horder.subset (Table.isSome_find?.mp (by rw [hw]; rfl))
    obtain ⟨f, hf, rfl⟩ := List.mem_map.mp hname
    rcases prepareField_ok (hfields f hf) with ⟨hnone, -⟩ | ⟨v', w', hv', hw', hprep⟩
    · cases hv.symm.trans hnone
    · cases hv.symm.trans hv'
      cases hw.symm.trans hw'
      obtain ⟨p, hp, hvp⟩ := h f hf v hv
      cases hp.symm.trans hprep
      exact hvp

end Fields

theorem prepare_of_conforms (hs : ∀ d ∈ s.structDefs, d.fieldNames.Nodup)
    (h : Conforms s StructDef.Declared ty v) :
    ∃ p, prepare s ty v = .ok p ∧ Rearranged v p := by
  induction h with
  | prim hr hp =>
    refine ⟨_, ?_, .same _⟩
    unfold prepare
    rw [hr]
    show orMismatch _ _ (asPrimitive _ _) = _
    rw [asPrimitive_of_holds hp]
    rfl
  | member hr hm =>
    refine ⟨_, ?_, .same _⟩
    unfold prepare
    rw [hr]
    show orMismatch _ _ (if _ then _ else _) = _
    rw [if_pos ⟨rfl, hm⟩]
    rfl
  | unknownMember hr =>
    refine ⟨_, ?_, .same _⟩
    unfold prepare
    rw [hr]
    rfl
  | list hr _ ih =>
    obtain ⟨ps, hps, hitems⟩ := prepareItems_of_forall ih
    refine ⟨.list ps, ?_, ?_⟩
    · unfold prepare
      rw [hr]
      show Value.list <$> prepareItems _ _ _ = _
      rw [hps]
      rfl
    · obtain ⟨hlen, hzip⟩ := List.forall₂_iff_zip.mp hitems
      exact .list hlen fun _ he => hzip he
  | set hr _ hapart ih =>
    obtain ⟨ps, hps, hitems⟩ := prepareItems_of_forall ih
    -- Prepared elements are equal only if the given ones are, so none of them is dropped.
    have hdistinct := Value.distinct_of_apart
      (Value.apart_of_alike (hitems.imp fun _ _ h => h.alike) hapart)
    refine ⟨.set ps, ?_, ?_⟩
    · unfold prepare
      rw [hr]
      show (Value.set ∘ Value.distinct) <$> prepareItems _ _ _ = _
      rw [hps]
      show Except.ok (Value.set (Value.distinct ps)) = _
      rw [hdistinct]
    · obtain ⟨hlen, hzip⟩ := List.forall₂_iff_zip.mp hitems
      exact .set hlen fun _ he => hzip he
  | map hr _ _ ihk ihv =>
    obtain ⟨ps, hps, hentries⟩ := prepareEntries_of_forall ihk ihv
    refine ⟨.map ps, ?_, ?_⟩
    · unfold prepare
      rw [hr]
      show Value.map <$> prepareEntries _ _ _ _ = _
      rw [hps]
      rfl
    · obtain ⟨hlen, hzip⟩ := List.forall₂_iff_zip.mp hentries
      exact .map hlen (fun _ he => (hzip he).1) fun _ he => (hzip he).2
  | struct hr hnames _ ih =>
    obtain ⟨p, hp, hvp⟩ := prepareStruct_of_fields (hs _ (mem_structDefs_of_resolve hr)) hnames ih
    exact ⟨p, by rw [prepare_struct hr, hp], hvp⟩

end Codec

end ThriftRpc
