import ThriftRpc.Compile.Build
import ThriftRpc.Proofs.Except

/-!
# Fields and the names in them

What the fields of a definition become: one descriptor for each, in order, with its own index and
name, and with a type in which every alias is replaced. The relation to the written fields is kept
when more is defined (`Extends`).
-/

namespace ThriftRpc.Compile

open Idl (Field)

variable {s t : Schema} {name : String}

/-- The aliases of `s` are those of `t`, and what is defined in `s` is defined in `t`. -/
structure Extends (s t : Schema) : Prop where
  aliases : ∀ {name target}, s.typedefs.find? name = some target →
    t.typedefs.find? name = some target
  defined : ∀ {name}, (s.lookup name).isSome = true → (t.lookup name).isSome = true

/-- A name means the target of an alias, or the definition of that name. -/
def Means (s : Schema) (name : String) (type : Ty) : Prop :=
  s.typedefs.find? name = some type ∨ (s.lookup name).isSome = true ∧ type = .named name

/-- What a written type becomes. -/
inductive Stands (s : Schema) : Ty → Ty → Prop
  | prim (p : Primitive) : Stands s (.prim p) (.prim p)
  | named {name : String} {type : Ty} : Means s name type → Stands s (.named name) type
  /-- A name with a dot may be known by what follows its last dot. -/
  | qualified {name : String} {type : Ty} : name.toList.contains '.' = true →
    Means s (Text.lastSegment name) type → Stands s (.named name) type
  | list {elem type : Ty} : Stands s elem type → Stands s (.list elem) (.list type)
  | set {elem type : Ty} : Stands s elem type → Stands s (.set elem) (.set type)
  | map {key value k v : Ty} : Stands s key k → Stands s value v →
    Stands s (.map key value) (.map k v)

theorem Means.mono (h : Extends s t) {type : Ty} (hm : Means s name type) : Means t name type :=
  hm.imp h.aliases fun hd => ⟨h.defined hd.1, hd.2⟩

theorem Stands.mono (h : Extends s t) {written type : Ty} (hs : Stands s written type) :
    Stands t written type := by
  induction hs with
  | prim p => exact .prim p
  | named hm => exact .named (hm.mono h)
  | qualified hdot hm => exact .qualified hdot (hm.mono h)
  | list _ ih => exact .list ih
  | set _ ih => exact .set ih
  | map _ _ ihk ihv => exact .map ihk ihv

theorem means_of_lookupName? {type : Ty} (h : lookupName? s name = some type) :
    Means s name type := by
  unfold lookupName? at h
  cases ht : s.typedefs.find? name with
  | some target =>
    rw [ht] at h
    exact .inl (ht.trans h)
  | none =>
    rw [ht] at h
    obtain ⟨c, hc, htype⟩ := Option.map_eq_some_iff.mp h
    exact .inr ⟨by rw [hc]; rfl, htype.symm⟩

theorem resolveName_stands {type : Ty} (h : resolveName s name = .ok type) :
    Stands s (.named name) type := by
  unfold resolveName at h
  cases hwhole : lookupName? s name with
  | some whole =>
    rw [hwhole] at h
    cases h
    exact .named (means_of_lookupName? hwhole)
  | none =>
    rw [hwhole] at h
    by_cases hdot : name.toList.contains '.' = true
    · simp only [hdot, if_true] at h
      cases hshort : lookupName? s (Text.lastSegment name) with
      | some short =>
        rw [hshort] at h
        cases h
        exact .qualified hdot (means_of_lookupName? hshort)
      | none => rw [hshort] at h; cases h
    · simp only [hdot] at h
      cases h

theorem resolveType_stands {written type : Ty} (h : resolveType s written = .ok type) :
    Stands s written type := by
  induction written generalizing type with
  | prim p => cases h; exact .prim p
  | named name => exact resolveName_stands h
  | list elem ih =>
    obtain ⟨e, he, rfl⟩ := map_eq_ok h
    exact .list (ih he)
  | set elem ih =>
    obtain ⟨e, he, rfl⟩ := map_eq_ok h
    exact .set (ih he)
  | map key value ihk ihv =>
    obtain ⟨k, hk, h⟩ := bind_eq_ok h
    obtain ⟨v, hv, h⟩ := bind_eq_ok h
    cases h
    exact .map (ihk hk) (ihv hv)

/-! ## Fields -/

/-- The index of a field at a place in its list, counted from 0: the one that is written, or else
the number of the place, counted from 1. -/
def indexAt (place : Nat) (f : Field) : Int :=
  match f.index with
  | some n => n.toInt
  | none => place + 1

theorem wantedIndex_eq (place : Nat) (f : Field) : wantedIndex place f = indexAt place f := by
  unfold wantedIndex indexAt
  cases f.index <;> rfl

/-- A descriptor for a field at a place in its list. -/
structure FieldOf (s : Schema) (f : Field × Nat) (d : FieldDef) : Prop where
  index : d.index.toInt = indexAt f.2 f.1
  name : d.name = f.1.name
  type : Stands s f.1.type d.type
  default : d.default = f.1.default
  requiredness : d.requiredness = f.1.requiredness

/-- No two fields share an index or a name. -/
structure FieldsApart (defs : List FieldDef) : Prop where
  indices : (defs.map FieldDef.index).Nodup
  names : (defs.map FieldDef.name).Nodup

structure FieldsOf (s : Schema) (fields : List Field) (defs : List FieldDef) : Prop where
  declared : List.Forall₂ (FieldOf s) fields.zipIdx defs
  apart : FieldsApart defs

theorem FieldsOf.mono (h : Extends s t) {fields : List Field} {defs : List FieldDef}
    (hf : FieldsOf s fields defs) : FieldsOf t fields defs :=
  ⟨hf.declared.imp fun _ _ hd =>
    ⟨hd.index, hd.name, hd.type.mono h, hd.default, hd.requiredness⟩, hf.apart⟩

theorem assignIndices_ok {owner : String} {taken : List (Int × String)} {position : Nat}
    {fields : List Field} {pairs : List (Int16 × Field)}
    (h : assignIndices owner taken position fields = .ok pairs) :
    List.Forall₂ (fun f p => p.1.toInt = indexAt f.2 f.1 ∧ p.2 = f.1)
      (fields.zipIdx position) pairs ∧
    (∀ p ∈ pairs, p.1.toInt ∉ taken.map Prod.fst ∧ p.2.name ∉ taken.map Prod.snd) ∧
    pairs.Pairwise fun p q => p.1.toInt ≠ q.1.toInt ∧ p.2.name ≠ q.2.name := by
  induction fields generalizing taken position pairs with
  | nil =>
    cases h
    exact ⟨.nil, by simp, List.Pairwise.nil⟩
  | cons f fields ih =>
    unfold assignIndices at h
    rw [wantedIndex_eq] at h
    generalize hwanted : indexAt position f = index at h
    by_cases hrange : index < -0x8000 ∨ 0x7FFF < index
    · rw [if_pos hrange] at h
      cases h
    by_cases hindex : index ∈ taken.map Prod.fst
    · rw [if_neg hrange, if_pos hindex] at h
      cases h
    by_cases hname : f.name ∈ taken.map Prod.snd
    · rw [if_neg hrange, if_neg hindex, if_pos hname] at h
      cases h
    rw [if_neg hrange, if_neg hindex, if_neg hname] at h
    obtain ⟨rest, hrest, h⟩ := bind_eq_ok h
    cases h
    obtain ⟨hdeclared, hfresh, hapart⟩ := ih hrest
    have hint : (Int16.ofInt index).toInt = index :=
      Int16.toInt_ofInt_of_le (by omega) (by omega)
    refine ⟨.cons ⟨hint.trans hwanted.symm, rfl⟩ hdeclared,
      List.forall_mem_cons.mpr ⟨⟨?_, hname⟩, ?_⟩, List.pairwise_cons.mpr ⟨?_, hapart⟩⟩
    · rw [hint]
      exact hindex
    · intro p hp
      obtain ⟨hi, hn⟩ := hfresh p hp
      rw [List.map_cons, List.mem_cons, not_or] at hi hn
      exact ⟨hi.2, hn.2⟩
    · intro p hp
      obtain ⟨hi, hn⟩ := hfresh p hp
      rw [List.map_cons, List.mem_cons, not_or] at hi hn
      rw [hint]
      exact ⟨Ne.symm hi.1, Ne.symm hn.1⟩

theorem fieldDefs_ok {owner : String} {fields : List Field} {defs : List FieldDef}
    (h : fieldDefs s owner fields = .ok defs) : FieldsOf s fields defs := by
  obtain ⟨pairs, hpairs, h⟩ := bind_eq_ok h
  obtain ⟨hdeclared, -, hapart⟩ := assignIndices_ok hpairs
  have hdefs : List.Forall₂ (fun p d => ∃ type, resolveType s p.2.type = .ok type ∧
      d = { index := p.1, name := p.2.name, type, default := p.2.default,
            requiredness := p.2.requiredness }) pairs defs := by
    refine (mapM_eq_ok h).imp fun p d hd => ?_
    obtain ⟨type, htype, hd⟩ := bind_eq_ok hd
    exact ⟨type, htype, (Except.ok.inj hd).symm⟩
  refine ⟨forall₂_trans ?_ hdeclared hdefs, ?_, ?_⟩
  · rintro ⟨f, place⟩ ⟨index, _⟩ d ⟨hindex, rfl⟩ ⟨type, htype, rfl⟩
    exact ⟨hindex, rfl, resolveType_stands htype, rfl, rfl⟩
  · have hmap : pairs.map Prod.fst = defs.map FieldDef.index :=
      map_eq_map_of_forall₂ (by rintro p d ⟨type, -, rfl⟩; rfl) hdefs
    rw [← hmap]
    exact List.pairwise_map.mpr (hapart.imp fun hne heq => hne.1 (congrArg Int16.toInt heq))
  · have hmap : pairs.map (fun p => p.2.name) = defs.map FieldDef.name :=
      map_eq_map_of_forall₂ (by rintro p d ⟨type, -, rfl⟩; rfl) hdefs
    rw [← hmap]
    exact List.pairwise_map.mpr (hapart.imp fun hne => hne.2)

end ThriftRpc.Compile
