import Mathlib.Data.List.Nodup
import ThriftRpc.Table

/-!
# Tables with distinct keys

A table whose keys are distinct is determined by its lookups and the order of its keys.
-/

namespace ThriftRpc.Table

variable {κ α : Type} [DecidableEq κ]

theorem mem_of_find? {k : κ} {v : α} {t : Table κ α} (h : find? k t = some v) : (k, v) ∈ t := by
  induction t with
  | nil => cases h
  | cons p t ih =>
    obtain ⟨l, w⟩ := p
    unfold find? at h
    split at h
    · next hl => cases h; exact hl ▸ List.mem_cons_self
    · exact List.mem_cons_of_mem _ (ih h)

theorem find?_eq_none {k : κ} {t : Table κ α} : find? k t = none ↔ k ∉ t.map Prod.fst := by
  induction t with
  | nil => simp [find?]
  | cons p t ih =>
    obtain ⟨l, w⟩ := p
    by_cases hl : l = k
    · simp [find?, hl]
    · simp [find?, hl, Ne.symm hl, ih]

theorem find?_of_mem {k : κ} {v : α} {t : Table κ α} (hd : (t.map Prod.fst).Nodup)
    (h : (k, v) ∈ t) : find? k t = some v := by
  induction t with
  | nil => cases h
  | cons p t ih =>
    obtain ⟨l, w⟩ := p
    rw [List.map_cons, List.nodup_cons] at hd
    unfold find?
    rcases List.mem_cons.mp h with heq | hmem
    · cases heq; rw [if_pos rfl]
    · have hk : k ∈ t.map Prod.fst := List.mem_map_of_mem (f := Prod.fst) hmem
      have hne : l ≠ k := fun e => hd.1 (e ▸ hk)
      rw [if_neg hne]
      exact ih hd.2 hmem

theorem find?_append_of_some {k : κ} {v : α} {t u : Table κ α} (h : find? k t = some v) :
    find? k (t ++ u) = some v := by
  induction t with
  | nil => cases h
  | cons p t ih =>
    obtain ⟨l, w⟩ := p
    rw [List.cons_append]
    unfold find? at h ⊢
    split
    · next hl => rwa [if_pos hl] at h
    · next hl => exact ih (by rwa [if_neg hl] at h)

theorem isSome_find? {k : κ} {t : Table κ α} : (find? k t).isSome = true ↔ k ∈ t.map Prod.fst := by
  rw [← Option.not_isNone, Bool.not_eq_true', Bool.eq_false_iff, ne_eq, Option.isNone_iff_eq_none,
    find?_eq_none, not_not]

theorem insert_of_not_mem {k : κ} (v : α) {t : Table κ α} (h : k ∉ t.map Prod.fst) :
    insert k v t = t ++ [(k, v)] := by
  induction t with
  | nil => rfl
  | cons p t ih =>
    obtain ⟨l, w⟩ := p
    rw [List.map_cons, List.mem_cons, not_or] at h
    unfold insert
    rw [if_neg (Ne.symm h.1), ih h.2]
    rfl

theorem mem_insert {k : κ} {v : α} {t : Table κ α} {e : κ × α} (h : e ∈ insert k v t) :
    e = (k, v) ∨ e ∈ t := by
  induction t with
  | nil => exact .inl (List.mem_singleton.mp h)
  | cons p t ih =>
    obtain ⟨l, w⟩ := p
    unfold insert at h
    split at h
    · next hl =>
      rw [hl] at h
      exact (List.mem_cons.mp h).imp_right (List.mem_cons_of_mem _)
    · rcases List.mem_cons.mp h with rfl | h
      · exact .inr List.mem_cons_self
      · exact (ih h).imp_right (List.mem_cons_of_mem _)

theorem nodup_keys_insert {k : κ} {v : α} {t : Table κ α} (ht : (t.map Prod.fst).Nodup) :
    ((insert k v t).map Prod.fst).Nodup := by
  rw [keys_insert]
  split
  · exact ht
  · next hk =>
    refine List.nodup_append.mpr ⟨ht, List.nodup_singleton k, fun l hl m hm heq => hk ?_⟩
    exact List.mem_singleton.mp hm ▸ heq ▸ hl

/-- A new value may only take the place of another one. -/
theorem nodup_map_insert {β : Type} {g : κ × α → β} {k : κ} {v : α} {t : Table κ α}
    (ht : (t.map g).Nodup) (hv : g (k, v) ∉ t.map g) : ((insert k v t).map g).Nodup := by
  induction t with
  | nil => exact List.nodup_singleton _
  | cons p t ih =>
    obtain ⟨l, w⟩ := p
    rw [List.map_cons, List.nodup_cons] at ht
    rw [List.map_cons, List.mem_cons, not_or] at hv
    unfold insert
    split
    · next hl => exact List.nodup_cons.mpr ⟨hl ▸ hv.2, ht.2⟩
    · refine List.nodup_cons.mpr ⟨fun hm => ?_, ih ht.2 hv.2⟩
      obtain ⟨e, he, heq⟩ := List.mem_map.mp hm
      rcases mem_insert he with rfl | he
      · exact hv.1 heq
      · exact ht.1 (heq ▸ List.mem_map_of_mem he)

/-- The order of distinct keys does not matter. -/
theorem find?_perm {t u : Table κ α} (h : t.Perm u) (hd : (t.map Prod.fst).Nodup) (k : κ) :
    find? k t = find? k u := by
  cases hfind : find? k u with
  | some v => exact find?_of_mem hd (h.mem_iff.mpr (mem_of_find? hfind))
  | none =>
    rw [find?_eq_none] at hfind ⊢
    exact fun hk => hfind ((h.map Prod.fst).mem_iff.mp hk)

/-- Pairs with distinct keys are a table as they stand. -/
theorem ofList_eq {pairs : List (κ × α)} (hd : (pairs.map Prod.fst).Nodup) :
    ofList pairs = pairs := by
  suffices h : ∀ t : Table κ α, (t.map Prod.fst ++ pairs.map Prod.fst).Nodup →
      pairs.foldl (fun t p => insert p.1 p.2 t) t = t ++ pairs from h [] hd
  clear hd
  induction pairs with
  | nil => intro t _; simp
  | cons p pairs ih =>
    intro t ht
    have hp : p.1 ∉ t.map Prod.fst := fun hm =>
      (List.nodup_append.mp ht).2.2 _ hm _ List.mem_cons_self rfl
    rw [List.foldl_cons, insert_of_not_mem p.2 hp, ih]
    · simp
    · simpa using ht

/-- Distinct keys find what stands at their place. -/
theorem find?_zip {ks : List κ} {vs : List α} (hd : ks.Nodup) {i : Nat} {k : κ}
    (hk : ks[i]? = some k) : find? k (ks.zip vs) = vs[i]? := by
  induction ks generalizing vs i with
  | nil => cases hk
  | cons l ks ih =>
    rw [List.nodup_cons] at hd
    cases vs with
    | nil => rfl
    | cons v vs =>
      rw [List.zip_cons_cons]
      unfold find?
      cases i with
      | zero =>
        cases hk
        rw [if_pos rfl]
        rfl
      | succ i =>
        have hne : l ≠ k := fun he => hd.1 (he ▸ List.mem_of_getElem? hk)
        rw [if_neg hne]
        exact ih hd.2 hk

/-- A table whose keys stand in the order of `ks` is what it gives for these keys. -/
theorem filterMap_find? {ks : List κ} {t : Table κ α} (hd : ks.Nodup)
    (h : (t.map Prod.fst).Sublist ks) :
    (ks.filterMap fun k => (find? k t).map (k, ·)) = t := by
  induction ks generalizing t with
  | nil => simpa using h
  | cons k ks ih =>
    rw [List.nodup_cons] at hd
    cases t with
    | nil => simp [find?]
    | cons p t =>
      obtain ⟨l, w⟩ := p
      rw [List.map_cons] at h
      cases h with
      | cons _ h =>
        have hk : k ∉ ((l, w) :: t).map Prod.fst := fun hm => hd.1 (h.subset hm)
        rw [List.filterMap_cons, find?_eq_none.mpr hk]
        exact ih hd.2 h
      | cons_cons _ h =>
        have hrest : (ks.filterMap fun m => (find? m ((l, w) :: t)).map (m, ·)) =
            ks.filterMap fun m => (find? m t).map (m, ·) := by
          refine List.filterMap_congr fun m hm => ?_
          have hne : l ≠ m := fun e => hd.1 (e ▸ hm)
          simp [find?, hne]
        rw [List.filterMap_cons, hrest, ih hd.2 h]
        simp [find?]

end ThriftRpc.Table
