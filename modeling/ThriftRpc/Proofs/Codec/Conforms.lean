import ThriftRpc.Codec.Prepare
import ThriftRpc.Proofs.Codec.Regular
import ThriftRpc.Proofs.Value

/-!
# Values of a type

`Conforms s layout ty v`: the value has the form its type demands at every level, and the field
names of each of its structs satisfy `layout`. What `prepare` gives conforms with fields in order
of declaration (`prepare_conforms`).
-/

namespace ThriftRpc

/-- The values of a base type. -/
inductive Primitive.Holds : Primitive → Value → Prop
  | bool (b : Bool) : Holds .bool (.bool b)
  | byte (n : Int8) : Holds .byte (.byte n)
  | i16 (n : Int16) : Holds .i16 (.i16 n)
  | i32 (n : Int32) : Holds .i32 (.i32 n)
  | i64 (n : Int64) : Holds .i64 (.i64 n)
  | double (x : Double) : Holds .double (.double x)
  | string (text : String) : Holds .string (.string text)
  | binary (bytes : List UInt8) : Holds .binary (.binary bytes)

theorem Primitive.Holds.depth_le {p : Primitive} {v : Value} (h : p.Holds v) (n : Nat) :
    v.depth ≤ n := by
  cases h <;> exact Nat.zero_le n

theorem Primitive.Holds.nests_eq {p : Primitive} {v : Value} (h : p.Holds v) :
    v.nests = false := by
  cases h <;> rfl

/-- The field names are declared and no two are the same; they stand in any order. -/
def StructDef.Declared (d : StructDef) (names : List String) : Prop :=
  names.Nodup ∧ names ⊆ d.fieldNames

/-- The field names are declared and stand in order of declaration. -/
def StructDef.InOrder (d : StructDef) (names : List String) : Prop := names.Sublist d.fieldNames

/-- Fields in order are what is found under the declared names. -/
theorem StructDef.InOrder.found {d : StructDef} {fields : List (String × Value)}
    (hd : d.fieldNames.Nodup) (h : d.InOrder (fields.map Prod.fst)) :
    (d.fields.filterMap fun e => (Table.find? e.2.name fields).map (e.2.name, ·)) = fields := by
  have hall := Table.filterMap_find? hd h
  rwa [d.fieldNames_eq, List.filterMap_map] at hall

namespace Codec

variable {s : Schema} {layout : StructDef → List String → Prop}

inductive Conforms (s : Schema) (layout : StructDef → List String → Prop) : Ty → Value → Prop
  | prim {ty : Ty} {p : Primitive} {v : Value} :
    resolve s ty = .ok (.prim p) → p.Holds v → Conforms s layout ty v
  | member {ty : Ty} {d : EnumDef} {m : String} :
    resolve s ty = .ok (.enum d) → m ∈ d.members → Conforms s layout ty (.enum d.name m)
  | unknownMember {ty : Ty} {d : EnumDef} :
    resolve s ty = .ok (.enum d) → Conforms s layout ty (.i32 Value.unknownCode)
  | list {ty elem : Ty} {items : List Value} :
    resolve s ty = .ok (.list elem) → (∀ v ∈ items, Conforms s layout elem v) →
      Conforms s layout ty (.list items)
  | set {ty elem : Ty} {items : List Value} :
    resolve s ty = .ok (.set elem) → (∀ v ∈ items, Conforms s layout elem v) →
      Value.Apart items → Conforms s layout ty (.set items)
  | map {ty key value : Ty} {entries : List (Value × Value)} :
    resolve s ty = .ok (.map key value) → (∀ e ∈ entries, Conforms s layout key e.1) →
      (∀ e ∈ entries, Conforms s layout value e.2) → Conforms s layout ty (.map entries)
  | struct {ty : Ty} {d : StructDef} {fields : List (String × Value)} :
    resolve s ty = .ok (.struct d) → layout d (fields.map Prod.fst) →
      (∀ f ∈ d.fieldDefs, ∀ v, Table.find? f.name fields = some v → Conforms s layout f.type v) →
      Conforms s layout ty (.struct d.name fields)

/-- The fields of a struct value of the descriptor `d`, which need not be in the schema. -/
structure FieldsConform (s : Schema) (layout : StructDef → List String → Prop) (d : StructDef)
    (fields : List (String × Value)) : Prop where
  names : layout d (fields.map Prod.fst)
  values : ∀ f ∈ d.fieldDefs, ∀ v, Table.find? f.name fields = some v → Conforms s layout f.type v

/-! ## Base types and enums -/

theorem narrow_holds {p : Primitive} {n : Int} {w : Value} (h : narrow p n = some w) :
    p.Holds w := by
  cases p <;> simp only [narrow, Option.ite_none_right_eq_some, Option.some.injEq, reduceCtorEq]
    at h
  all_goals
    obtain ⟨_, rfl⟩ := h
    constructor

theorem fits_eq {bits : Nat} {n : Int} :
    fits bits n = true ↔ -(Nat.pow 2 (bits - 1) : Int) ≤ n ∧ n < (Nat.pow 2 (bits - 1) : Int) := by
  unfold fits
  rw [Bool.and_eq_true, decide_eq_true_eq, decide_eq_true_eq]
  exact And.comm

/-- A value of a base type is one as it stands. -/
theorem asPrimitive_of_holds {p : Primitive} {v : Value} (h : p.Holds v) :
    asPrimitive p v = some v := by
  cases h with
  | byte n =>
    have hfits : fits 8 n.toInt = true := fits_eq.mpr ⟨n.le_toInt, n.toInt_lt⟩
    show narrow .byte n.toInt = _
    simp only [narrow, hfits, if_true, Int8.ofInt_toInt]
  | i16 n =>
    have hfits : fits 16 n.toInt = true := fits_eq.mpr ⟨n.le_toInt, n.toInt_lt⟩
    show narrow .i16 n.toInt = _
    simp only [narrow, hfits, if_true, Int16.ofInt_toInt]
  | i32 n =>
    have hfits : fits 32 n.toInt = true := fits_eq.mpr ⟨n.le_toInt, n.toInt_lt⟩
    show narrow .i32 n.toInt = _
    simp only [narrow, hfits, if_true, Int32.ofInt_toInt]
  | i64 n =>
    have hfits : fits 64 n.toInt = true := fits_eq.mpr ⟨n.le_toInt, n.toInt_lt⟩
    show narrow .i64 n.toInt = _
    simp only [narrow, hfits, if_true, Int64.ofInt_toInt]
  | _ => rfl

theorem asPrimitive_holds {p : Primitive} {v w : Value} (h : asPrimitive p v = some w) :
    p.Holds w := by
  unfold asPrimitive at h
  split at h
  · cases h; constructor
  · cases h; constructor
  · obtain ⟨n, _, rfl⟩ := Option.map_eq_some_iff.mp h; constructor
  · cases h; constructor
  · obtain ⟨x, _, rfl⟩ := Option.map_eq_some_iff.mp h; constructor
  · obtain ⟨n, _, rfl⟩ := Option.map_eq_some_iff.mp h; constructor
  · obtain ⟨t, _, rfl⟩ := Option.map_eq_some_iff.mp h; constructor
  · obtain ⟨t, _, rfl⟩ := Option.map_eq_some_iff.mp h; constructor
  · cases h; constructor
  · cases h; constructor
  · cases h
  · obtain ⟨n, _, hn⟩ := Option.bind_eq_some_iff.mp h; exact narrow_holds hn

theorem enumOfCode_conforms {ty : Ty} {d : EnumDef} {n : Int} {w : Value}
    (hr : resolve s ty = .ok (.enum d)) (h : enumOfCode d n = some w) : Conforms s layout ty w := by
  unfold enumOfCode at h
  split at h
  · obtain ⟨m, hm, rfl⟩ := Option.map_eq_some_iff.mp h
    unfold EnumDef.memberOf? at hm
    split at hm
    · cases hm
    · exact .member hr (List.mem_of_getElem? hm)
  · cases h

theorem enumOfText_conforms {ty : Ty} {d : EnumDef} {t : String} {w : Value}
    (hr : resolve s ty = .ok (.enum d)) (h : enumOfText d t = some w) : Conforms s layout ty w := by
  unfold enumOfText at h
  split at h
  · next hm => cases h; exact .member hr hm
  · obtain ⟨n, _, hn⟩ := Option.bind_eq_some_iff.mp h
    exact enumOfCode_conforms hr hn

theorem asEnum_conforms {ty : Ty} {d : EnumDef} {v w : Value} (hr : resolve s ty = .ok (.enum d))
    (h : asEnum d v = some w) : Conforms s layout ty w := by
  unfold asEnum at h
  split at h
  · next name member =>
    split at h
    · next hm => cases h; exact hm.1 ▸ .member hr hm.2
    · cases h
  · exact enumOfText_conforms hr h
  · split at h
    · next hn => cases h; exact hn ▸ .unknownMember hr
    · exact enumOfCode_conforms hr h
  · obtain ⟨n, _, hn⟩ := Option.bind_eq_some_iff.mp h
    exact enumOfCode_conforms hr hn

end Codec

end ThriftRpc
