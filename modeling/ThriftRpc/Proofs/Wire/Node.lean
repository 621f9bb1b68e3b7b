import ThriftRpc.Proofs.Wire.Idle
import ThriftRpc.Proofs.Wire.Layout
import ThriftRpc.Proofs.Wire.Limit

/-!
# Well-formed values on the wire

A `Node w` is a tree of scalars, structs and containers that can stand on the wire as a value of
the type `w`: elements have the type that their container announces and lengths fit their headers.
`Node.skipped`: skipping takes exactly its bytes if every value in it, the scalars too, is within
the limit. The limit speaks of what nests only, and it is kept for all trees but those that reach it
with a scalar at the bottom (`honoursLimit_iff`).
-/

namespace ThriftRpc

/-- How many bytes a scalar of a fixed width takes. -/
def WireType.width? : WireType → Option Nat
  | void => some 0
  | bool | byte => some 1
  | i16 => some 2
  | i32 => some 4
  | i64 | double => some 8
  | _ => none

namespace Wire

mutual

inductive Node : WireType → Type where
  | scalar {w : WireType} (bytes : List UInt8) (h : w.width? = some bytes.length) : Node w
  | text (bytes : List UInt8) (h : bytes.length ≤ Writer.maxSize) : Node .string
  | struct (fields : Fields) : Node .struct
  | list (elem : WireType) {n : Nat} (h : n ≤ Writer.maxSize) (items : Items elem n) : Node .list
  | set (elem : WireType) {n : Nat} (h : n ≤ Writer.maxSize) (items : Items elem n) : Node .set
  | map (key value : WireType) {n : Nat} (h : n ≤ Writer.maxSize) (entries : Entries key value n) :
    Node .map

/-- Values of one type, as many as announced. -/
inductive Items : WireType → Nat → Type where
  | nil {w : WireType} : Items w 0
  | cons {w : WireType} {n : Nat} (v : Node w) (rest : Items w n) : Items w (n + 1)

inductive Entries : WireType → WireType → Nat → Type where
  | nil {key value : WireType} : Entries key value 0
  | cons {key value : WireType} {n : Nat} (k : Node key) (v : Node value)
    (rest : Entries key value n) : Entries key value (n + 1)

/-- The fields of a struct up to its stop. -/
inductive Fields : Type where
  | stop : Fields
  | field {w : WireType} (index : Int16) (v : Node w) (rest : Fields) : Fields

end

/-- The two bytes of an integer. -/
def half (n : Int16) : List UInt8 := BigEndian.toBytes 2 n.toUInt16.toNat

mutual

def Node.bytes {w : WireType} : Node w → List UInt8
  | .scalar bytes _ => bytes
  | .text bytes _ => word (.ofNat bytes.length) ++ bytes
  | .struct fields => fields.bytes
  | @Node.list elem n _ items => elem.code :: word (.ofNat n) ++ items.bytes
  | @Node.set elem n _ items => elem.code :: word (.ofNat n) ++ items.bytes
  | @Node.map key value n _ entries =>
    key.code :: value.code :: word (.ofNat n) ++ entries.bytes

def Items.bytes {w : WireType} {n : Nat} : Items w n → List UInt8
  | .nil => []
  | .cons v rest => v.bytes ++ rest.bytes

def Entries.bytes {key value : WireType} {n : Nat} : Entries key value n → List UInt8
  | .nil => []
  | .cons k v rest => k.bytes ++ v.bytes ++ rest.bytes

def Fields.bytes : Fields → List UInt8
  | .stop => [WireType.stop.code]
  | @Fields.field w index v rest => w.code :: half index ++ (v.bytes ++ rest.bytes)

end

mutual

/-- How deep structs and containers nest, where a scalar counts `leaf`. -/
def Node.height (leaf : Nat) {w : WireType} : Node w → Nat
  | .scalar _ _ | .text _ _ => leaf
  | .struct fields => fields.height leaf + 1
  | .list _ _ items | .set _ _ items => items.height leaf + 1
  | .map _ _ _ entries => entries.height leaf + 1

def Items.height (leaf : Nat) {w : WireType} {n : Nat} : Items w n → Nat
  | .nil => 0
  | .cons v rest => max (v.height leaf) (rest.height leaf)

def Entries.height (leaf : Nat) {key value : WireType} {n : Nat} : Entries key value n → Nat
  | .nil => 0
  | .cons k v rest => max (max (k.height leaf) (v.height leaf)) (rest.height leaf)

def Fields.height (leaf : Nat) : Fields → Nat
  | .stop => 0
  | .field _ v rest => max (v.height leaf) (rest.height leaf)

end

/-- How deep structs and containers nest. -/
def Node.depth {w : WireType} (v : Node w) : Nat := v.height 0

/-- How deep values nest, each counted as a level of its own. -/
def Node.levels {w : WireType} (v : Node w) : Nat := v.height 1

variable {w key value : WireType} {n : Nat}

theorem Writer.writes_wireType (w : WireType) : Writes (Writer.wireType w) [w.code] := by
  have hcode : BigEndian.toBytes 1 w.code.toNat = [w.code] := by simp [BigEndian.toBytes]
  rw [← hcode]
  exact Writer.writes_bytes _

theorem Writer.writes_fieldHeader (h : FieldHeader) :
    Writes (Writer.fieldHeader h) (h.wireType.code :: half h.index) :=
  (Writer.writes_wireType h.wireType).bind (Writer.writes_bytes _)

theorem Writer.writes_listHeader (h : ListHeader) :
    Writes (Writer.listHeader h) (h.element.code :: word h.size) :=
  (Writer.writes_wireType h.element).bind (Writer.writes_word _)

theorem Writer.writes_mapHeader (h : MapHeader) :
    Writes (Writer.mapHeader h) (h.key.code :: h.value.code :: word h.size) :=
  (Writer.writes_wireType h.key).bind
    ((Writer.writes_wireType h.value).bind (Writer.writes_word _))

/-! ## Skipping a tree -/

theorem Node.ne_stop (v : Node w) : w ≠ .stop := by
  rintro rfl
  cases v with
  | scalar bytes h => cases h

theorem Node.levels_pos (v : Node w) : 0 < v.levels := by
  cases v <;> exact Nat.succ_pos _

section Parts

variable {bytes : List UInt8} {ok : Prop}

theorem scalar_skipped (h : w.width? = some bytes.length) (n : Nat) :
    Reads (Reader.skipWithin (n + 1) w) bytes () := by
  have hnumber {width : Nat} (hw : some width = some bytes.length) :
      Reads (Reader.unsigned width) bytes (BigEndian.ofBytes bytes) := by
    cases hw
    exact (Reader.reads_bytes bytes .shortItem).andThen (Reads.pure _)
  have hbyte (hw : some 1 = some bytes.length) :
      Reads Reader.uint8 bytes (UInt8.ofNat (BigEndian.ofBytes bytes)) :=
    (hnumber hw).andThen (Reads.pure _)
  cases w with
  | void =>
    have hnil : bytes = [] := List.length_eq_zero_iff.mp (Option.some.inj h).symm
    exact hnil ▸ Reads.pure ()
  | bool => exact Reads.discard (r := Reader.bool) ((hbyte h).andThen (Reads.pure _))
  | byte => exact Reads.discard (r := Reader.byte) ((hbyte h).andThen (Reads.pure _))
  | i16 => exact Reads.discard (r := Reader.i16) ((hnumber h).andThen (Reads.pure _))
  | i32 => exact Reads.discard (r := Reader.i32) ((hnumber h).andThen (Reads.pure _))
  | i64 => exact Reads.discard (r := Reader.i64) ((hnumber h).andThen (Reads.pure _))
  | double => exact Reads.discard (r := Reader.double) ((hnumber h).andThen (Reads.pure _))
  | stop | string | struct | map | set | list => cases h

theorem fields_skipped (h : ∀ fuel, bytes.length ≤ fuel →
    ReadsIf ok 0 .depthLimit (Reader.skipFields (Reader.skipWithin n) fuel) bytes ()) :
    ReadsIf ok 0 .depthLimit (Reader.skipWithin (n + 1) .struct) bytes () := by
  have hfuel (rest : List UInt8) := h ((bytes ++ rest).length + 1) (by
    rw [List.length_append]
    omega)
  exact ⟨fun hok rest => (hfuel rest).reads hok rest,
    fun hnot rest => (hfuel rest).refuses hnot rest⟩

theorem items_skipped {k : Nat} (h : k ≤ Writer.maxSize)
    (hitems : ReadsIf ok 0 .depthLimit (Reader.replicate k (Reader.skipWithin n w)) bytes ()) :
    ReadsIf ok 0 .depthLimit (Reader.skipWithin (n + 1) .list)
      (w.code :: word (.ofNat k) ++ bytes) () := by
  let header : ListHeader := ⟨w, .ofNat k⟩
  have hsize : 0 ≤ header.size ∧ header.size.toInt.toNat = k := toInt_ofNat_size h
  have hheader := (Carried.listHeader hsize.1).reads (Writer.writes_listHeader header)
  refine .after hheader ?_
  rw [Reader.replicate_listRounds, hsize.2]
  exact hitems

theorem entries_skipped {k : Nat} (h : k ≤ Writer.maxSize)
    (hentries : ReadsIf ok 0 .depthLimit
      (Reader.replicate k do
        Reader.skipWithin n key
        Reader.skipWithin n value)
      bytes ()) :
    ReadsIf ok 0 .depthLimit (Reader.skipWithin (n + 1) .map)
      (key.code :: value.code :: word (.ofNat k) ++ bytes) () := by
  let header : MapHeader := ⟨key, value, .ofNat k⟩
  have hsize : 0 ≤ header.size ∧ header.size.toInt.toNat = k := toInt_ofNat_size h
  have hheader := (Carried.mapHeader hsize.1).reads (Writer.writes_mapHeader header)
  refine .after hheader ?_
  rw [Reader.replicate_mapRounds, hsize.2]
  exact hentries

end Parts

-- The budget is spent level by level like the height of the tree, so that the two meet at 0: a value
-- has a height of at least 1, and without budget nothing is skipped.
mutual

theorem Node.skipped {w : WireType} (v : Node w) (n : Nat) :
    ReadsIf (v.levels ≤ n) 0 .depthLimit (Reader.skipWithin n w) v.bytes () := by
  cases n with
  | zero =>
    exact ⟨fun h => absurd h (Nat.not_le.mpr v.levels_pos), fun _ => .throw (Nat.zero_le _)⟩
  | succ n =>
    match v with
    | .scalar bytes h =>
      exact ⟨fun _ => scalar_skipped h n, fun hnot => absurd (Nat.le_add_left 1 n) hnot⟩
    | .text bytes h =>
      have hread := (Carried.binary h).discard.reads (Writer.writes_binary h)
      exact ⟨fun _ => hread, fun hnot => absurd (Nat.le_add_left 1 n) hnot⟩
    | .struct fields =>
      exact (fields_skipped fun fuel => fields.skipped n fuel).congr Nat.succ_le_succ_iff
    | .list elem h items => exact (items_skipped h (items.skipped n)).congr Nat.succ_le_succ_iff
    | .set elem h items => exact (items_skipped h (items.skipped n)).congr Nat.succ_le_succ_iff
    | .map key value h entries =>
      exact (entries_skipped h (entries.skipped n)).congr Nat.succ_le_succ_iff

theorem Items.skipped {w : WireType} {k : Nat} (items : Items w k) (n : Nat) :
    ReadsIf (items.height 1 ≤ n) 0 .depthLimit (Reader.replicate k (Reader.skipWithin n w))
      items.bytes () := by
  match items with
  | .nil => exact ⟨fun _ => Reads.pure (), fun hnot => absurd (Nat.zero_le n) hnot⟩
  | .cons v rest => exact ((v.skipped n).bind (rest.skipped n) (Nat.zero_le _)).congr Nat.max_le

theorem Entries.skipped {key value : WireType} {k : Nat} (entries : Entries key value k)
    (n : Nat) :
    ReadsIf (entries.height 1 ≤ n) 0 .depthLimit
      (Reader.replicate k do
        Reader.skipWithin n key
        Reader.skipWithin n value)
      entries.bytes () := by
  match entries with
  | .nil => exact ⟨fun _ => Reads.pure (), fun hnot => absurd (Nat.zero_le n) hnot⟩
  | .cons k v rest =>
    have hentry : ReadsIf (k.levels ≤ n ∧ v.levels ≤ n) 0 .depthLimit
        (do Reader.skipWithin n key; Reader.skipWithin n value) (k.bytes ++ v.bytes) () :=
      (k.skipped n).bind (v.skipped n) (Nat.zero_le _)
    exact ((hentry.congr Nat.max_le).bind (rest.skipped n) (Nat.zero_le _)).congr Nat.max_le

/-- The header of every field has at least a byte, so the length of the input is fuel enough. -/
theorem Fields.skipped (fields : Fields) (n fuel : Nat) (h : fields.bytes.length ≤ fuel) :
    ReadsIf (fields.height 1 ≤ n) 0 .depthLimit
      (Reader.skipFields (Reader.skipWithin n) fuel) fields.bytes () := by
  match fields with
  | .stop =>
    have hheader : Reads Reader.fieldHeader [WireType.stop.code] ⟨.stop, 0⟩ :=
      Carried.fieldStop.reads (Writer.writes_wireType .stop)
    have hlen : ([WireType.stop.code] ++ []).length ≤ fuel := h
    obtain ⟨k, rfl, -⟩ := exists_fuel hheader hlen
    exact ⟨fun _ => hheader.andThen (Reads.pure ()), fun hnot => absurd (Nat.zero_le n) hnot⟩
  | .field (w := w) index v rest =>
    have hheader : Reads Reader.fieldHeader (w.code :: half index) ⟨w, index⟩ :=
      (Carried.fieldHeader v.ne_stop).reads (Writer.writes_fieldHeader ⟨w, index⟩)
    obtain ⟨k, rfl, hk⟩ := exists_fuel hheader h
    rw [List.length_append] at hk
    refine .congr (.after hheader ?_) Nat.max_le
    rw [if_neg v.ne_stop]
    exact (v.skipped n).bind (rest.skipped n k (by omega)) (Nat.zero_le _)

end

/-! ## The limit -/

mutual

/-- Scalars as a level of their own add at most the one at the bottom. -/
theorem Node.height_bounds {w : WireType} (v : Node w) :
    v.height 0 ≤ v.height 1 ∧ v.height 1 ≤ v.height 0 + 1 := by
  match v with
  | .scalar _ _ | .text _ _ => exact ⟨Nat.zero_le 1, Nat.le_refl 1⟩
  | .struct fields => simpa only [Node.height, Nat.add_le_add_iff_right] using fields.height_bounds
  | .list _ _ items => simpa only [Node.height, Nat.add_le_add_iff_right] using items.height_bounds
  | .set _ _ items => simpa only [Node.height, Nat.add_le_add_iff_right] using items.height_bounds
  | .map _ _ _ entries =>
    simpa only [Node.height, Nat.add_le_add_iff_right] using entries.height_bounds

theorem Items.height_bounds {w : WireType} {n : Nat} (items : Items w n) :
    items.height 0 ≤ items.height 1 ∧ items.height 1 ≤ items.height 0 + 1 := by
  match items with
  | .nil => exact ⟨Nat.le_refl 0, Nat.zero_le 1⟩
  | .cons v rest =>
    have hv := v.height_bounds
    have hrest := rest.height_bounds
    simp only [Items.height]
    omega

theorem Entries.height_bounds {key value : WireType} {n : Nat} (entries : Entries key value n) :
    entries.height 0 ≤ entries.height 1 ∧ entries.height 1 ≤ entries.height 0 + 1 := by
  match entries with
  | .nil => exact ⟨Nat.le_refl 0, Nat.zero_le 1⟩
  | .cons k v rest =>
    have hk := k.height_bounds
    have hv := v.height_bounds
    have hrest := rest.height_bounds
    simp only [Entries.height]
    omega

theorem Fields.height_bounds (fields : Fields) :
    fields.height 0 ≤ fields.height 1 ∧ fields.height 1 ≤ fields.height 0 + 1 := by
  match fields with
  | .stop => exact ⟨Nat.le_refl 0, Nat.zero_le 1⟩
  | .field _ v rest =>
    have hv := v.height_bounds
    have hrest := rest.height_bounds
    simp only [Fields.height]
    omega

end

namespace Node

/-- Skipping takes the bytes of the value, whatever follows them, if its structs and containers
nest within the limit, and it fails if they nest deeper. -/
structure HonoursLimit (v : Node w) : Prop where
  within : v.depth ≤ Reader.skipLimit → ∀ rest, Reader.skip w (v.bytes ++ rest) = (.ok (), rest)
  beyond : Reader.skipLimit < v.depth →
    ∀ rest, ∃ left, Reader.skip w (v.bytes ++ rest) = (.error .depthLimit, left)

/-- The value nests up to the limit, with a scalar at the bottom. -/
def Brimful (v : Node w) : Prop :=
  v.depth = Reader.skipLimit ∧ v.levels = Reader.skipLimit + 1

theorem not_brimful_iff (v : Node w) :
    ¬v.Brimful ↔ (v.depth ≤ Reader.skipLimit ↔ v.levels ≤ Reader.skipLimit) := by
  have hbounds := v.height_bounds
  unfold Brimful depth levels
  omega

theorem honoursLimit_iff (v : Node w) : v.HonoursLimit ↔ ¬v.Brimful := by
  have hskip := v.skipped Reader.skipLimit
  constructor
  · rintro h ⟨hdepth, hlevels⟩
    have hwithin := hskip.reads_iff.mp (h.within (Nat.le_of_eq hdepth))
    omega
  · rw [not_brimful_iff]
    refine fun hiff => ⟨fun hdepth => hskip.reads (hiff.mp hdepth), fun hdepth rest => ?_⟩
    obtain ⟨left, -, hfault⟩ := hskip.refuses (mt hiff.mpr (Nat.not_le.mpr hdepth)) rest
    exact ⟨left ++ rest, hfault⟩

/-- A truth value inside `n + 1` lists. -/
def nested : Nat → Node .list
  | 0 => .list .bool (n := 1) (by decide) (.cons (.scalar [1] rfl) .nil)
  | n + 1 => .list .list (n := 1) (by decide) (.cons (nested n) .nil)

theorem height_nested (leaf n : Nat) : (nested n).height leaf = n + 1 + leaf := by
  induction n with
  | zero => simp [nested, Node.height, Items.height, Nat.add_comm]
  | succ n ih =>
    simp only [nested, Node.height, Items.height, ih]
    omega

/-- The lists of this value nest as deep as is allowed, and it is refused. -/
theorem skip_nested :
    (nested 63).depth = Reader.skipLimit ∧
      (Reader.skip .list (nested 63).bytes).1 = .error .depthLimit := by
  have hlevels : (nested 63).levels = Reader.skipLimit + 1 := height_nested 1 63
  obtain ⟨left, -, hfault⟩ := ((nested 63).skipped Reader.skipLimit).refuses (by omega) []
  rw [List.append_nil] at hfault
  exact ⟨height_nested 0 63, congrArg Prod.fst hfault⟩

end Node

end Wire

end ThriftRpc
