import ThriftRpc.Proofs.Codec.Rearranged
import ThriftRpc.Proofs.Codec.RoundTrip

/-!
# Normal forms

A value of a type has one normal form, the one with its fields in order of declaration
(`eq_of_rearranged`). `prepare` gives normal forms only and leaves a value of the type as it is but
for that order, so what is prepared is not changed by preparing it again (`prepare_normalises`).
-/

namespace ThriftRpc.Codec

open Value (Rearranged)

variable {s : Schema} {layout : StructDef → List String → Prop} {ty : Ty} {v w : Value}
  {d : StructDef}

namespace Conforms

theorem list_inv {items : List Value} (h : Conforms s layout ty (.list items)) :
    ∃ elem, resolve s ty = .ok (.list elem) ∧ ∀ v ∈ items, Conforms s layout elem v := by
  cases h with
  | list hr hitems => exact ⟨_, hr, hitems⟩
  | prim _ hp => cases hp

theorem set_inv {items : List Value} (h : Conforms s layout ty (.set items)) :
    ∃ elem, resolve s ty = .ok (.set elem) ∧ ∀ v ∈ items, Conforms s layout elem v := by
  cases h with
  | set hr hitems => exact ⟨_, hr, hitems⟩
  | prim _ hp => cases hp

theorem map_inv {entries : List (Value × Value)} (h : Conforms s layout ty (.map entries)) :
    ∃ key value, resolve s ty = .ok (.map key value) ∧
      ∀ e ∈ entries, Conforms s layout key e.1 ∧ Conforms s layout value e.2 := by
  cases h with
  | map hr hkeys hvalues => exact ⟨_, _, hr, fun e he => ⟨hkeys e he, hvalues e he⟩⟩
  | prim _ hp => cases hp

theorem struct_inv {name : String} {fields : List (String × Value)}
    (h : Conforms s layout ty (.struct name fields)) :
    ∃ d, resolve s ty = .ok (.struct d) ∧ FieldsConform s layout d fields := by
  cases h with
  | struct hr hnames hvalues => exact ⟨_, hr, hnames, hvalues⟩
  | prim _ hp => cases hp

/-- Fields in order are declared, and none comes twice. -/
theorem declared (hs : ∀ d ∈ s.structDefs, d.fieldNames.Nodup)
    (h : Conforms s StructDef.InOrder ty v) : Conforms s StructDef.Declared ty v := by
  induction h with
  | prim hr hp => exact .prim hr hp
  | member hr hm => exact .member hr hm
  | unknownMember hr => exact .unknownMember hr
  | list hr _ ih => exact .list hr ih
  | set hr _ hapart ih => exact .set hr ih hapart
  | map hr _ _ ihk ihv => exact .map hr ihk ihv
  | struct hr horder _ ih =>
    exact .struct hr ⟨(hs _ (mem_structDefs_of_resolve hr)).sublist horder, horder.subset⟩ ih

end Conforms

/-- Lists are equal if what stands at each place is. -/
theorem eq_of_forall_zip {α : Type} {as bs : List α} (hlen : as.length = bs.length)
    (h : ∀ e ∈ as.zip bs, e.1 = e.2) : as = bs := by
  have hall : List.Forall₂ (· = ·) as bs := List.forall₂_iff_zip.mpr ⟨hlen, fun he => h _ he⟩
  rwa [List.forall₂_eq_eq_eq] at hall

/-- Fields in order are determined by what is found under each name. -/
theorem fields_eq_of_inOrder {fields fields' : List (String × Value)} (hd : d.fieldNames.Nodup)
    (h : d.InOrder (fields.map Prod.fst)) (h' : d.InOrder (fields'.map Prod.fst))
    (hfound : ∀ f ∈ d.fieldDefs, Table.find? f.name fields = Table.find? f.name fields') :
    fields = fields' := by
  rw [← h.found hd, ← h'.found hd]
  refine List.filterMap_congr fun e he => ?_
  rw [hfound e.2 (List.mem_map_of_mem (f := Prod.snd) he)]

/-- A value has no second arrangement with its fields in order. -/
theorem eq_of_rearranged (hs : ∀ d ∈ s.structDefs, d.fieldNames.Nodup) (h : Rearranged v w)
    (hv : Conforms s StructDef.InOrder ty v) (hw : Conforms s StructDef.InOrder ty w) : v = w := by
  induction h generalizing ty with
  | same v => rfl
  | list hlen _ ih =>
    obtain ⟨elem, hr, hitems⟩ := hv.list_inv
    obtain ⟨_, hr', hitems'⟩ := hw.list_inv
    cases hr.symm.trans hr'
    refine congrArg Value.list (eq_of_forall_zip hlen fun e he => ?_)
    obtain ⟨hfst, hsnd⟩ := List.of_mem_zip he
    exact ih e he (hitems e.1 hfst) (hitems' e.2 hsnd)
  | set hlen _ ih =>
    obtain ⟨elem, hr, hitems⟩ := hv.set_inv
    obtain ⟨_, hr', hitems'⟩ := hw.set_inv
    cases hr.symm.trans hr'
    refine congrArg Value.set (eq_of_forall_zip hlen fun e he => ?_)
    obtain ⟨hfst, hsnd⟩ := List.of_mem_zip he
    exact ih e he (hitems e.1 hfst) (hitems' e.2 hsnd)
  | map hlen _ _ ihk ihv =>
    obtain ⟨key, value, hr, hentries⟩ := hv.map_inv
    obtain ⟨_, _, hr', hentries'⟩ := hw.map_inv
    cases hr.symm.trans hr'
    refine congrArg Value.map (eq_of_forall_zip hlen fun e he => ?_)
    obtain ⟨hfst, hsnd⟩ := List.of_mem_zip he
    exact Prod.ext (ihk e he (hentries e.1 hfst).1 (hentries' e.2 hsnd).1)
      (ihv e he (hentries e.1 hfst).2 (hentries' e.2 hsnd).2)
  | @struct name fields fields' hnodup hperm _ ih =>
    obtain ⟨d, hr, hfields⟩ := hv.struct_inv
    obtain ⟨_, hr', hfields'⟩ := hw.struct_inv
    cases hr.symm.trans hr'
    refine congrArg (Value.struct name)
      (fields_eq_of_inOrder (hs d (mem_structDefs_of_resolve hr)) hfields.names hfields'.names ?_)
    intro f hf
    cases hfound : Table.find? f.name fields with
    | none =>
      rw [Table.find?_eq_none] at hfound
      exact (Table.find?_eq_none.mpr fun hmem => hfound (hperm.mem_iff.mpr hmem)).symm
    | some v =>
      have hkey := hperm.mem_iff.mp (Table.isSome_find?.mp (by rw [hfound]; rfl))
      obtain ⟨v', hv'⟩ := Option.isSome_iff_exists.mp (Table.isSome_find?.mpr hkey)
      rw [hv', ih f.name v v' hfound hv' (hfields.values f hf v hfound)
        (hfields'.values f hf v' hv')]

/-! ## Preparing -/

/-- Preparing gives normal forms, leaves a conforming value as it is up to the order of fields, and
does not change what is prepared. -/
theorem prepare_normalises (hs : ∀ d ∈ s.structDefs, d.fieldNames.Nodup) (ty : Ty) (v : Value) :
    (∀ p, prepare s ty v = .ok p →
      Conforms s StructDef.InOrder ty p ∧ prepare s ty p = .ok p) ∧
    (Conforms s StructDef.Declared ty v → ∃ p, prepare s ty v = .ok p ∧ Rearranged v p) := by
  refine ⟨fun p hp => ?_, prepare_of_conforms hs⟩
  have hconforms := prepare_conforms hs hp
  obtain ⟨q, hq, hpq⟩ := prepare_of_conforms hs (hconforms.declared hs)
  refine ⟨hconforms, ?_⟩
  rw [hq, eq_of_rearranged hs hpq hconforms (prepare_conforms hs hq)]

/-- Two points that are equal once the texts and codes in them are coerced, and the one point that
they become with its fields the other way round. -/
theorem prepare_normalises_points :
    let ty : Ty := .named "Points"
    let given : Value :=
      .list [.struct "Point" [("colour", .i64 1), ("at", .list [.string " 7 "])],
        .struct "Point" [("at", .set [.byte 7]), ("colour", .string "green")]]
    let prepared : Value :=
      .set [.struct "Point" [("at", .list [.i32 7]), ("colour", .enum "Colour" "green")]]
    let turned : Value :=
      .set [.struct "Point" [("colour", .enum "Colour" "green"), ("at", .list [.i32 7])]]
    prepare pointSchema ty given = .ok prepared ∧
      Conforms pointSchema StructDef.InOrder ty prepared ∧
      prepare pointSchema ty prepared = .ok prepared ∧
      ∃ p, prepare pointSchema ty turned = .ok p ∧ Rearranged turned p := by
  intro ty given prepared turned
  have hs : ∀ d ∈ pointSchema.structDefs, d.fieldNames.Nodup := by decide
  have hgiven : prepare pointSchema ty given = .ok prepared := by rfl
  have hturned : Conforms pointSchema StructDef.Declared ty turned := by
    have hat : Conforms pointSchema StructDef.Declared (.list (.prim .i32)) (.list [.i32 7]) :=
      .list rfl (List.forall_mem_singleton.mpr (.prim rfl (.i32 7)))
    have hcolour : Conforms pointSchema StructDef.Declared (.named "Colour")
        (.enum "Colour" "green") := .member (d := ⟨"Colour", ["red", "green"]⟩) rfl (by decide)
    have hr : resolve pointSchema (.named "Point") = .ok (.struct pointSchema.structs[0].2) := rfl
    have hnames : pointSchema.structs[0].2.Declared ["colour", "at"] := ⟨by decide, by decide⟩
    refine .set rfl (List.forall_mem_singleton.mpr (.struct hr hnames fun f hf v hv => ?_))
      (List.pairwise_singleton _ _)
    rcases List.mem_cons.mp hf with rfl | hf
    · cases hv
      exact hat
    · cases List.mem_singleton.mp hf
      cases hv
      exact hcolour
  obtain ⟨hconforms, hagain⟩ := (prepare_normalises hs ty given).1 prepared hgiven
  exact ⟨hgiven, hconforms, hagain, (prepare_normalises hs ty turned).2 hturned⟩

end ThriftRpc.Codec
