import ThriftRpc.Proofs.Table
import ThriftRpc.Text.Utf8
import ThriftRpc.Value.Basic

/-!
# Parts, depth and lengths of values

`parts` are the values directly inside a value, and induction goes over them (`induct`). `depth`
counts how deep structs and containers nest, `longest` is the greatest length of a text, a byte
string or a container anywhere in a value.
-/

namespace ThriftRpc.Value

/-- The values directly inside a value. -/
def parts : Value → List Value
  | list items => items
  | set items => items
  | map entries => entries.flatMap fun e => [e.1, e.2]
  | struct _ fields => fields.map Prod.snd
  | _ => []

theorem key_mem_parts {entries : List (Value × Value)} {e : Value × Value} (he : e ∈ entries) :
    e.1 ∈ (map entries).parts :=
  List.mem_flatMap.mpr ⟨e, he, List.mem_cons_self⟩

theorem value_mem_parts {entries : List (Value × Value)} {e : Value × Value} (he : e ∈ entries) :
    e.2 ∈ (map entries).parts :=
  List.mem_flatMap.mpr ⟨e, he, by simp⟩

theorem field_mem_parts {name field : String} {fields : List (String × Value)} {v : Value}
    (h : Table.find? field fields = some v) : v ∈ (struct name fields).parts :=
  List.mem_map_of_mem (f := Prod.snd) (Table.mem_of_find? h)

section Induct

variable {P : Value → Prop}

theorem forall_parts_map {entries : List (Value × Value)} :
    (∀ w ∈ (map entries).parts, P w) ↔ ∀ e ∈ entries, P e.1 ∧ P e.2 := by
  refine ⟨fun h e he => ⟨h e.1 (key_mem_parts he), h e.2 (value_mem_parts he)⟩, fun h w hw => ?_⟩
  obtain ⟨e, he, hw⟩ := List.mem_flatMap.mp hw
  simp only [List.mem_cons, List.not_mem_nil, or_false] at hw
  rcases hw with rfl | rfl
  · exact (h e he).1
  · exact (h e he).2

theorem forall_parts_struct {name : String} {fields : List (String × Value)} :
    (∀ w ∈ (struct name fields).parts, P w) ↔ ∀ e ∈ fields, P e.2 := List.forall_mem_map

mutual

theorem induct (h : ∀ v, (∀ w ∈ v.parts, P w) → P v) : ∀ v, P v
  | bool _ | byte _ | i16 _ | i32 _ | i64 _ | double _ | string _ | binary _ | enum _ _ =>
    h _ fun _ hw => nomatch hw
  | list items => h _ (inductItems h items)
  | set items => h _ (inductItems h items)
  | map entries => h _ (inductEntries h entries)
  | struct _ fields => h _ (inductFields h fields)

theorem inductItems (h : ∀ v, (∀ w ∈ v.parts, P w) → P v) :
    ∀ items : List Value, ∀ w ∈ items, P w
  | [], _, hw => nomatch hw
  | v :: items, w, hw => by
    rcases List.mem_cons.mp hw with heq | hmem
    · exact heq ▸ induct h v
    · exact inductItems h items w hmem

theorem inductEntries (h : ∀ v, (∀ w ∈ v.parts, P w) → P v) :
    ∀ entries : List (Value × Value), ∀ w ∈ entries.flatMap fun e => [e.1, e.2], P w
  | [], _, hw => nomatch hw
  | (k, v) :: entries, w, hw => by
    rw [List.flatMap_cons, List.mem_append] at hw
    rcases hw with hw | hw
    · simp only [List.mem_cons, List.not_mem_nil, or_false] at hw
      rcases hw with heq | heq
      · exact heq ▸ induct h k
      · exact heq ▸ induct h v
    · exact inductEntries h entries w hw

theorem inductFields (h : ∀ v, (∀ w ∈ v.parts, P w) → P v) :
    ∀ fields : List (String × Value), ∀ w ∈ fields.map Prod.snd, P w
  | [], _, hw => nomatch hw
  | (_, v) :: fields, w, hw => by
    rw [List.map_cons, List.mem_cons] at hw
    rcases hw with heq | hmem
    · exact heq ▸ induct h v
    · exact inductFields h fields w hmem

end

end Induct

mutual

/-- Computes a number for a value from the greatest one of its parts. -/
def greatest (f : Value → Nat → Nat) : Value → Nat
  | list items => f (list items) (greatestItem f items)
  | set items => f (set items) (greatestItem f items)
  | map entries => f (map entries) (greatestEntry f entries)
  | struct name fields => f (struct name fields) (greatestField f fields)
  | v => f v 0
termination_by structural v => v

def greatestItem (f : Value → Nat → Nat) : List Value → Nat
  | [] => 0
  | v :: vs => max (greatest f v) (greatestItem f vs)
termination_by structural vs => vs

def greatestEntry (f : Value → Nat → Nat) : List (Value × Value) → Nat
  | [] => 0
  | (k, v) :: es => max (max (greatest f k) (greatest f v)) (greatestEntry f es)
termination_by structural es => es

def greatestField (f : Value → Nat → Nat) : List (String × Value) → Nat
  | [] => 0
  | (_, v) :: fs => max (greatest f v) (greatestField f fs)
termination_by structural fs => fs

end

variable {f : Value → Nat → Nat} {n : Nat}

theorem greatestItem_le {items : List Value} :
    greatestItem f items ≤ n ↔ ∀ v ∈ items, greatest f v ≤ n := by
  induction items with
  | nil => simp [greatestItem]
  | cons v items ih => rw [List.forall_mem_cons, ← ih, greatestItem, Nat.max_le]

theorem greatestEntry_le {entries : List (Value × Value)} :
    greatestEntry f entries ≤ n ↔ ∀ e ∈ entries, greatest f e.1 ≤ n ∧ greatest f e.2 ≤ n := by
  induction entries with
  | nil => simp [greatestEntry]
  | cons e entries ih =>
    rw [List.forall_mem_cons, ← ih, greatestEntry, Nat.max_le, Nat.max_le]

theorem greatestField_le {fields : List (String × Value)} :
    greatestField f fields ≤ n ↔ ∀ e ∈ fields, greatest f e.2 ≤ n := by
  induction fields with
  | nil => simp [greatestField]
  | cons e fields ih => rw [List.forall_mem_cons, ← ih, greatestField, Nat.max_le]

/-- The greatest number among the parts of a value. -/
def greatestPart (f : Value → Nat → Nat) : Value → Nat
  | list items | set items => greatestItem f items
  | map entries => greatestEntry f entries
  | struct _ fields => greatestField f fields
  | _ => 0

theorem greatest_eq (f : Value → Nat → Nat) (v : Value) :
    greatest f v = f v (greatestPart f v) := by
  cases v <;> rfl

theorem greatestPart_le {v : Value} : greatestPart f v ≤ n ↔ ∀ w ∈ v.parts, greatest f w ≤ n := by
  cases v with
  | list items => exact greatestItem_le
  | set items => exact greatestItem_le
  | map entries =>
    exact greatestEntry_le.trans (forall_parts_map (P := fun w => greatest f w ≤ n)).symm
  | struct name fields =>
    exact greatestField_le.trans (forall_parts_struct (P := fun w => greatest f w ≤ n)).symm
  | _ => simp [greatestPart, parts]

/-! ## Depth and lengths -/

/-- Structs and containers nest. -/
def nests : Value → Bool
  | list _ | set _ | map _ | struct _ _ => true
  | _ => false

/-- How deep structs and containers nest. -/
def depth : Value → Nat := greatest fun v n => if v.nests then n + 1 else 0

/-- The length that precedes a value on the wire: of a text in bytes, of a container in
elements. -/
def length : Value → Nat
  | string s => (Text.Utf8.encode s).length
  | binary bytes => bytes.length
  | v => v.size

/-- The greatest length of a text, a byte string or a container anywhere in a value. -/
def longest : Value → Nat := greatest fun v n => max v.length n

theorem depth_le_succ {v : Value} (h : v.nests = true) :
    v.depth ≤ n + 1 ↔ ∀ w ∈ v.parts, w.depth ≤ n := by
  unfold depth
  rw [greatest_eq, if_pos h, Nat.add_le_add_iff_right]
  exact greatestPart_le

/-- A value that nests takes a level, and leaves the others to its parts. -/
theorem depth_le_iff {v : Value} (h : v.nests = true) :
    v.depth ≤ n ↔ ∃ m, n = m + 1 ∧ ∀ w ∈ v.parts, w.depth ≤ m := by
  cases n with
  | zero =>
    unfold depth
    rw [greatest_eq, if_pos h]
    simp
  | succ n =>
    rw [depth_le_succ h]
    constructor
    · exact fun hparts => ⟨n, rfl, hparts⟩
    · rintro ⟨m, hm, hparts⟩
      cases hm
      exact hparts

theorem depth_list_le {items : List Value} :
    (list items).depth ≤ n ↔ ∃ m, n = m + 1 ∧ ∀ v ∈ items, v.depth ≤ m := depth_le_iff rfl

theorem depth_set_le {items : List Value} :
    (set items).depth ≤ n ↔ ∃ m, n = m + 1 ∧ ∀ v ∈ items, v.depth ≤ m := depth_le_iff rfl

theorem depth_map_le {entries : List (Value × Value)} :
    (map entries).depth ≤ n ↔
      ∃ m, n = m + 1 ∧ ∀ e ∈ entries, e.1.depth ≤ m ∧ e.2.depth ≤ m := by
  rw [depth_le_iff rfl]
  simp only [forall_parts_map]

theorem depth_struct_le {name : String} {fields : List (String × Value)} :
    (struct name fields).depth ≤ n ↔ ∃ m, n = m + 1 ∧ ∀ e ∈ fields, e.2.depth ≤ m := by
  rw [depth_le_iff rfl]
  simp only [forall_parts_struct]

theorem longest_le {v : Value} :
    v.longest ≤ n ↔ v.length ≤ n ∧ ∀ w ∈ v.parts, w.longest ≤ n := by
  unfold longest
  rw [greatest_eq, Nat.max_le, greatestPart_le]

/-- How deep values nest, each counted as a level of its own. -/
def levels : Value → Nat := greatest fun _ n => n + 1

theorem levels_le_succ {v : Value} : v.levels ≤ n + 1 ↔ ∀ w ∈ v.parts, w.levels ≤ n := by
  unfold levels
  rw [greatest_eq, Nat.add_le_add_iff_right]
  exact greatestPart_le

/-- The scalars at the bottom take a level more than what nests around them. -/
theorem levels_le_depth_succ (v : Value) : v.levels ≤ v.depth + 1 := by
  induction v using induct with
  | h v ih =>
    rw [levels_le_succ]
    intro w hw
    have hnests : v.nests = true := by
      cases v with
      | list | set | map | struct => rfl
      | _ => cases hw
    obtain ⟨m, hm, hparts⟩ := (depth_le_iff hnests).mp (Nat.le_refl v.depth)
    have hlevels := ih w hw
    have hdepth := hparts w hw
    omega

/-- A struct or container stands above its parts, and a scalar counts `leaf`. -/
def heightAbove (leaf : Nat) (v : Value) (n : Nat) : Nat := if v.nests then n + 1 else leaf

def height (leaf : Nat) : Value → Nat := greatest (heightAbove leaf)

theorem levels_eq_height (v : Value) : v.levels = v.height 1 := by
  induction v using induct with
  | h v ih =>
    have hle (n : Nat) :
        greatestPart (fun _ n => n + 1) v ≤ n ↔ greatestPart (heightAbove 1) v ≤ n := by
      rw [greatestPart_le, greatestPart_le]
      refine forall₂_congr fun w hw => ?_
      have hw := ih w hw
      unfold levels height at hw
      rw [hw]
    have hparts : greatestPart (fun _ n => n + 1) v = greatestPart (heightAbove 1) v :=
      Nat.le_antisymm ((hle _).mpr (Nat.le_refl _)) ((hle _).mp (Nat.le_refl _))
    unfold levels height
    rw [greatest_eq, greatest_eq, hparts]
    cases v <;> rfl

/-! ## Sets -/

/-- No two of the elements are equal. -/
def Apart (items : List Value) : Prop := items.Pairwise fun a b => a.equal b = false

theorem apart_insertItem {items : List Value} (h : Apart items) (v : Value) :
    Apart (insertItem items v) := by
  unfold insertItem
  split
  · exact h
  · next hv =>
    refine List.pairwise_append.mpr ⟨h, List.pairwise_singleton _ _, fun a ha b hb => ?_⟩
    rw [List.mem_singleton.mp hb]
    rw [List.any_eq_true] at hv
    exact Bool.eq_false_iff.mpr fun he => hv ⟨a, ha, he⟩

theorem apart_foldl_insertItem (items : List Value) {kept : List Value} (h : Apart kept) :
    Apart (items.foldl insertItem kept) := by
  induction items generalizing kept with
  | nil => exact h
  | cons v items ih => exact ih (apart_insertItem h v)

theorem apart_distinct (items : List Value) : Apart (distinct items) :=
  apart_foldl_insertItem items List.Pairwise.nil

/-- Elements that differ are all kept. -/
theorem foldl_insertItem_of_apart {items kept : List Value} (h : Apart (kept ++ items)) :
    items.foldl insertItem kept = kept ++ items := by
  induction items generalizing kept with
  | nil => simp
  | cons v items ih =>
    have hv : kept.any (·.equal v) = false := by
      rw [List.any_eq_false]
      intro a ha he
      have hf := (List.pairwise_append.mp h).2.2 a ha v List.mem_cons_self
      rw [hf] at he
      cases he
    have hk : insertItem kept v = kept ++ [v] := by
      unfold insertItem
      rw [hv]
      rfl
    rw [List.foldl_cons, hk, ih (by simpa using h)]
    simp

theorem distinct_of_apart {items : List Value} (h : Apart items) : distinct items = items :=
  foldl_insertItem_of_apart h

theorem length_distinct_le (items : List Value) : (distinct items).length ≤ items.length := by
  suffices h : ∀ kept : List Value,
      (items.foldl insertItem kept).length ≤ kept.length + items.length from
    Nat.le_trans (h []) (Nat.le_of_eq (Nat.zero_add _))
  induction items with
  | nil => exact fun kept => Nat.le_refl _
  | cons v items ih =>
    intro kept
    have hstep : (insertItem kept v).length ≤ kept.length + 1 := by
      unfold insertItem
      split
      · omega
      · exact Nat.le_of_eq List.length_append
    have hrest := ih (insertItem kept v)
    rw [List.foldl_cons, List.length_cons]
    omega

theorem mem_insertItem {items : List Value} {v w : Value} (h : w ∈ insertItem items v) :
    w ∈ items ∨ w = v := by
  unfold insertItem at h
  split at h
  · exact .inl h
  · simpa using h

theorem mem_of_mem_distinct {items : List Value} {w : Value} (h : w ∈ distinct items) :
    w ∈ items := by
  suffices hk : ∀ kept : List Value, w ∈ items.foldl insertItem kept → w ∈ kept ∨ w ∈ items by
    exact (hk [] h).resolve_left (List.not_mem_nil)
  clear h
  induction items with
  | nil => intro kept h; exact .inl h
  | cons v items ih =>
    intro kept h
    rcases ih _ h with hk | hi
    · rcases mem_insertItem hk with hk | rfl
      · exact .inl hk
      · exact .inr List.mem_cons_self
    · exact .inr (List.mem_cons_of_mem _ hi)

end ThriftRpc.Value
