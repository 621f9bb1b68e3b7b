import ThriftRpc.Proofs.Codec.Fields

/-!
# Reading values back

`ReadBack`: what is written for a value is read back as the same value, and no further, if the value
nests within the depth left to the reader; beyond it the reader fails. Here are the steps, one for
each kind of value.
-/

namespace ThriftRpc.Codec

open Wire

variable {s : Schema} {ty : Ty} {v : Value} {d : StructDef}

theorem primitive_carried (descend : Reading ValueReader) {p : Primitive} (h : p.Holds v)
    (hlen : v.length ≤ Writer.maxSize) :
    Carried (writePrimitive ty p v) (readShape s descend (.prim p)) (some v) := by
  cases h with
  | bool b => exact (((Carried.bool b).map Value.bool).adapt Fault.wire Fault.wire).map some
  | byte n => exact (((Carried.byte n).map Value.byte).adapt Fault.wire Fault.wire).map some
  | i16 n => exact (((Carried.i16 n).map Value.i16).adapt Fault.wire Fault.wire).map some
  | i32 n => exact (((Carried.i32 n).map Value.i32).adapt Fault.wire Fault.wire).map some
  | i64 n => exact (((Carried.i64 n).map Value.i64).adapt Fault.wire Fault.wire).map some
  | double x => exact (((Carried.double x).map Value.double).adapt Fault.wire Fault.wire).map some
  | string text =>
    exact (((Carried.string hlen).map Value.string).adapt Fault.wire Fault.wire).map some
  | binary bytes =>
    exact (((Carried.binary hlen).map Value.binary).adapt Fault.wire Fault.wire).map some

/-- A member has a code, and the code has that member. -/
theorem exists_code {d : EnumDef} (hd : d.Coded) {m : String} (hm : m ∈ d.members) :
    ∃ code, d.codeOf? m = some code ∧ d.memberOf? code = some m := by
  obtain ⟨i, hi⟩ := Option.isSome_iff_exists.mp (List.isSome_idxOf?.mpr hm)
  obtain ⟨hlt, hget, -⟩ := List.idxOf?_eq_some_iff.mp hi
  have hmax : i ≤ Writer.maxSize := by
    unfold EnumDef.Coded at hd
    unfold Writer.maxSize
    omega
  refine ⟨Int32.ofNat i, by unfold EnumDef.codeOf?; rw [hi]; rfl, ?_⟩
  unfold EnumDef.memberOf?
  rw [if_neg (Int32.not_lt.mpr (toInt_ofNat_size hmax).1), (toInt_ofNat_size hmax).2]
  exact List.getElem?_eq_some_iff.mpr ⟨hlt, hget⟩

theorem member_carried (ty : Ty) (descend : Reading ValueReader) {d : EnumDef} (hd : d.Coded) {m : String}
    (hm : m ∈ d.members) :
    Carried (writeEnum ty d (.enum d.name m)) (readShape s descend (.enum d))
      (some (.enum d.name m)) := by
  obtain ⟨code, hcode, hmember⟩ := exists_code hd hm
  have hread : Carried (Writer.i32 code) (readEnum d) (.enum d.name m) := by
    refine (Carried.i32 code).andThen ?_
    rw [hmember]
    exact Reads.pure _
  have hwrite : writeEnum ty d (.enum d.name m) = (Writer.i32 code : Writer Unit) := by
    unfold writeEnum
    simp only [hcode]
  rw [hwrite]
  exact (hread.adapt Fault.wire Fault.wire).map some

theorem unknownMember_carried (ty : Ty) (descend : Reading ValueReader) (d : EnumDef) :
    Carried (writeEnum ty d (.i32 Value.unknownCode)) (readShape s descend (.enum d))
      (some (.i32 Value.unknownCode)) := by
  have hread : Carried (Writer.i32 Value.unknownCode) (readEnum d) (.i32 Value.unknownCode) :=
    (Carried.i32 _).andThen (Reads.pure _)
  exact (hread.adapt Fault.wire Fault.wire).map some

section Elements

variable {fault : Fault}

theorem readPresent_carried_cons {α : Type} {w : Writing Unit} {rest : Writing Unit}
    {read : Reading (Option α)} {a : α} {as : List α} {p q : Prop}
    (h : CarriedIf p 0 fault w read (some a))
    (hrest : CarriedIf q 0 fault rest (readPresent as.length read) as) :
    CarriedIf (p ∧ q) 0 fault (do w; rest) (readPresent (a :: as).length read) (a :: as) :=
  h.bind (hrest.andThen (Reads.pure _))

theorem items_carried (ok : Value → Prop) {elem : Ty} {read : Reading (Option Value)} {items : List Value}
    (h : ∀ v ∈ items, CarriedIf (ok v) 0 fault (write s elem v) read (some v)) :
    CarriedIf (∀ v ∈ items, ok v) 0 fault (writeItems s elem items) (readPresent items.length read)
      items := by
  induction items with
  | nil => exact (Carried.pure []).carriedIf (List.forall_mem_nil _)
  | cons v items ih =>
    rw [List.forall_mem_cons] at h
    unfold writeItems
    exact (readPresent_carried_cons h.1 (ih h.2)).congr List.forall_mem_cons

theorem entries_carried (ok : Value → Prop) {key value : Ty} {readKey readValue : Reading (Option Value)}
    {entries : List (Value × Value)}
    (hkey : ∀ e ∈ entries, CarriedIf (ok e.1) 0 fault (write s key e.1) readKey (some e.1))
    (hvalue : ∀ e ∈ entries, CarriedIf (ok e.2) 0 fault (write s value e.2) readValue (some e.2)) :
    CarriedIf (∀ e ∈ entries, ok e.1 ∧ ok e.2) 0 fault (writeEntries s key value entries)
      (readPresent entries.length do
        let k ← readKey
        let v ← readValue
        return k.bind fun k => v.map fun v => (k, v)) entries := by
  induction entries with
  | nil => exact (Carried.pure []).carriedIf (List.forall_mem_nil _)
  | cons e entries ih =>
    rw [List.forall_mem_cons] at hkey hvalue
    unfold writeEntries
    rw [← bind_assoc]
    refine (readPresent_carried_cons ?_ (ih hkey.2 hvalue.2)).congr List.forall_mem_cons
    exact hkey.1.bind (hvalue.1.andThen (Reads.pure _))

end Elements

/-! ## Values -/

/-- The reader for what is nested in a value that may nest so deep. -/
def nested (s : Schema) : Nat → Reading ValueReader
  | 0 => throw (.wire .depthLimit)
  | depth + 1 => return readWithin s depth

theorem readWithin_eq (n : Nat) : readWithin s n = readCoerced s (nested s n) := by
  cases n <;> rfl

theorem wireType_not_vacant (shape : Shape) : shape.wireType.isVacant = false := by
  cases shape with
  | prim p => cases p <;> rfl
  | _ => rfl

theorem compatible_self (w : WireType) : compatible w w = true := by
  simp [compatible]

theorem wireType_ne_stop (shape : Shape) : shape.wireType ≠ .stop := by
  cases shape with
  | prim p => cases p <;> simp [Shape.wireType, Primitive.wireType]
  | _ => simp [Shape.wireType]

theorem readWithin_of_resolve {n : Nat} {shape : Shape} (hr : resolve s ty = .ok shape) :
    readWithin s n ty shape.wireType = readShape s (nested s n) shape := by
  rw [readWithin_eq]
  unfold readCoerced
  rw [if_neg (wireType_ne_stop shape), hr]
  exact if_pos rfl

theorem containerSize_eq {n : Nat} (h : n ≤ Writer.maxSize) :
    containerSize n = .ok (Int32.ofNat n) := if_pos h

/-- No shape is without bytes, so every element has a round of its own. -/
theorem listHeader_rounds (shape : Shape) {n : Nat} (h : n ≤ Writer.maxSize) :
    (⟨shape.wireType, .ofNat n⟩ : ListHeader).rounds = n := by
  unfold ListHeader.rounds rounds
  rw [wireType_not_vacant]
  exact (toInt_ofNat_size h).2

theorem mapHeader_rounds (key value : Shape) {n : Nat} (h : n ≤ Writer.maxSize) :
    (⟨key.wireType, value.wireType, .ofNat n⟩ : MapHeader).rounds = n := by
  unfold MapHeader.rounds rounds
  rw [wireType_not_vacant]
  exact (toInt_ofNat_size h).2

/-- What is written for `v` is read back if it nests at most `n` deep. -/
def ReadBack (s : Schema) (n : Nat) (ty : Ty) (w : WireType) (v : Value) : Prop :=
  CarriedIf (v.depth ≤ n) 0 (.wire .depthLimit) (write s ty v) (readWithin s n ty w) (some v)

/-- To descend takes a level. -/
theorem nested_carried {α : Type} {w : Writing Unit} {read : ValueReader → Reading α} {a : α}
    {ok : Nat → Prop} (h : ∀ m, CarriedIf (ok m) 0 (.wire .depthLimit) w (read (readWithin s m)) a) (n : Nat) :
    CarriedIf (∃ m, n = m + 1 ∧ ok m) 0 (.wire .depthLimit) w (nested s n >>= read) a := by
  cases n with
  | zero =>
    obtain ⟨bytes, hwrites, -⟩ := h 0
    refine ⟨bytes, hwrites, ?_, fun _ => (Refuses.throw (Nat.zero_le _)).andThen⟩
    rintro ⟨m, hm, -⟩
    cases hm
  | succ n =>
    refine (h n).congr ⟨?_, fun hok => ⟨n, rfl, hok⟩⟩
    rintro ⟨m, hm, hok⟩
    cases hm
    exact hok

/-- The elements of a list or a set, behind their header. -/
theorem readItems_carried {elem : Ty} {items : List Value} {shape : Shape}
    (hr : resolve s elem = .ok shape) (hl : items.length ≤ Writer.maxSize)
    (hitems : ∀ m, ∀ v ∈ items, ReadBack s m elem shape.wireType v) (n : Nat) :
    CarriedIf (∃ m, n = m + 1 ∧ ∀ v ∈ items, v.depth ≤ m) 0 (.wire .depthLimit)
      (do Writer.listHeader ⟨← wireType s elem, ← containerSize items.length⟩
          writeItems s elem items : Writing Unit)
      (readItems s (nested s n) elem) (some items) := by
  let header : ListHeader := ⟨shape.wireType, .ofNat items.length⟩
  have hheader := Carried.listHeader (h := header) (toInt_ofNat_size hl).1
  rw [wireType_eq hr, containerSize_eq hl]
  refine .after (hheader.adapt Fault.wire Fault.wire) (nested_carried (fun m => ?_) n)
  have hbody : CarriedIf (∀ v ∈ items, v.depth ≤ m) 0 (.wire .depthLimit) (writeItems s elem items)
      (do return some (← readPresent header.rounds (readWithin s m elem shape.wireType)))
      (some items) := by
    rw [listHeader_rounds shape hl]
    exact .andThen (items_carried (fun v => v.depth ≤ m) (hitems m)) (Reads.pure (some items))
  rw [wireType_eq hr]
  show CarriedIf _ _ _ _ (if compatible shape.wireType shape.wireType then _ else _) _
  rw [if_pos (compatible_self _)]
  exact hbody

theorem readEntries_carried {key value : Ty} {entries : List (Value × Value)}
    {keyShape valueShape : Shape} (hk : resolve s key = .ok keyShape)
    (hv : resolve s value = .ok valueShape) (hl : entries.length ≤ Writer.maxSize)
    (hkeys : ∀ m, ∀ e ∈ entries, ReadBack s m key keyShape.wireType e.1)
    (hvalues : ∀ m, ∀ e ∈ entries, ReadBack s m value valueShape.wireType e.2) (n : Nat) :
    CarriedIf (∃ m, n = m + 1 ∧ ∀ e ∈ entries, e.1.depth ≤ m ∧ e.2.depth ≤ m) 0 (.wire .depthLimit)
      (do Writer.mapHeader ⟨← wireType s key, ← wireType s value, ← containerSize entries.length⟩
          writeEntries s key value entries : Writing Unit)
      (readEntries s (nested s n) key value) (some entries) := by
  let header : MapHeader := ⟨keyShape.wireType, valueShape.wireType, .ofNat entries.length⟩
  have hheader := Carried.mapHeader (h := header) (toInt_ofNat_size hl).1
  rw [wireType_eq hk, wireType_eq hv, containerSize_eq hl]
  refine nested_carried (fun m => .after (hheader.adapt Fault.wire Fault.wire) ?_) n
  have hbody : CarriedIf (∀ e ∈ entries, e.1.depth ≤ m ∧ e.2.depth ≤ m) 0 (.wire .depthLimit)
      (writeEntries s key value entries) (do
        return some (← readPresent header.rounds do
          let k ← readWithin s m key keyShape.wireType
          let v ← readWithin s m value valueShape.wireType
          return k.bind fun k => v.map fun v => (k, v)))
      (some entries) := by
    rw [mapHeader_rounds keyShape valueShape hl]
    exact .andThen (entries_carried (fun v => v.depth ≤ m) (hkeys m) (hvalues m)) (Reads.pure (some entries))
  rw [wireType_eq hk, wireType_eq hv]
  show CarriedIf _ _ _ _ (if compatible keyShape.wireType keyShape.wireType &&
    compatible valueShape.wireType valueShape.wireType then _ else _) _
  rw [compatible_self, compatible_self]
  exact hbody

/-- The fields of a struct, if each is read back for itself. -/
theorem readFieldsOf_carried {fields : List (String × Value)} (hd : d.Keyed)
    (horder : d.InOrder (fields.map Prod.fst)) (m : Nat)
    (h : ∀ f ∈ d.fieldDefs, ∀ v, Table.find? f.name fields = some v →
      ∃ shape, resolve s f.type = .ok shape ∧ ReadBack s m f.type shape.wireType v) :
    CarriedIf (∀ e ∈ fields, e.2.depth ≤ m) 1 (.wire .depthLimit)
      (writeFields d fun f => writeField s f fields) (readFieldsOf d (readWithin s m))
      (.struct d.name fields) := by
  refine fields_carried (fun v => v.depth ≤ m) hd horder fun f hf v hv => ?_
  obtain ⟨shape, hshape, hread⟩ := h f hf v hv
  exact ⟨shape.wireType, wireType_eq hshape, wireType_ne_stop shape, hread⟩

end ThriftRpc.Codec
