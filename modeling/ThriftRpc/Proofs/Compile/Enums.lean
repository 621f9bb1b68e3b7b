import ThriftRpc.Proofs.Codec.RoundTrip
import ThriftRpc.Proofs.Compile.Regular

/-!
# Names and codes of enums

A member's code is its place, and the code of a name is the place where the name first stands. So
names and codes belong together one by one exactly if no name is repeated (`EnumDef.Paired`), and
otherwise a code that is decoded is sent on as another (`Codec.Relays`). Compiling takes the members
over as they are written, repeated or not (`enum_paired_iff`).
-/

namespace ThriftRpc

namespace EnumDef

variable {d : EnumDef} {member : String} {code : Int32} {i : Nat}

/-- The members whose place is a code. -/
def reached (d : EnumDef) : List String := d.members.take 0x80000000

/-- Codes and names lead back to one another. -/
structure Paired (d : EnumDef) : Prop where
  known : ∀ code, (d.memberOf? code).isSome = true ↔ 0 ≤ code ∧ code.toInt < d.members.length
  code : ∀ code member, d.memberOf? code = some member → d.codeOf? member = some code
  member : ∀ member ∈ d.members, (d.codeOf? member).bind d.memberOf? = some member

/-- A code that is not negative is a place. -/
theorem exists_place (h : 0 ≤ code) :
    ∃ i ≤ Wire.Writer.maxSize, code = .ofNat i ∧ code.toInt = i := by
  have hlt := code.toInt_lt
  have hnonneg : 0 ≤ code.toInt := Int32.le_iff_toInt_le.mp h
  have hplace : (code.toInt.toNat : Int) = code.toInt := Int.toNat_of_nonneg hnonneg
  refine ⟨code.toInt.toNat, ?_, Int32.toInt_inj.mp ?_, hplace.symm⟩
  · unfold Wire.Writer.maxSize
    omega
  · rw [Int32.toInt_ofNat_of_lt (by omega), hplace]

theorem memberOf?_ofNat (h : i ≤ Wire.Writer.maxSize) :
    d.memberOf? (.ofNat i) = d.members[i]? := by
  unfold memberOf?
  rw [if_neg (Int32.not_lt.mpr (Wire.toInt_ofNat_size h).1), (Wire.toInt_ofNat_size h).2]

theorem isSome_memberOf? :
    (d.memberOf? code).isSome = true ↔ 0 ≤ code ∧ code.toInt < d.members.length := by
  by_cases h : 0 ≤ code
  · obtain ⟨i, hi, rfl, hint⟩ := exists_place h
    rw [memberOf?_ofNat hi, hint, and_iff_right h, Int.ofNat_lt]
    simp
  · have hneg : code < 0 := Int32.not_le.mp h
    unfold memberOf?
    rw [if_pos hneg]
    simp [h]

theorem memberOf?_eq_some (h : d.memberOf? code = some member) :
    ∃ i ≤ Wire.Writer.maxSize, code = .ofNat i ∧ d.members[i]? = some member := by
  have hcode := (isSome_memberOf?.mp (by rw [h]; rfl)).1
  obtain ⟨i, hi, rfl, -⟩ := exists_place hcode
  rw [memberOf?_ofNat hi] at h
  exact ⟨i, hi, rfl, h⟩

theorem getElem?_reached : d.reached[i]? = if i ≤ Wire.Writer.maxSize then d.members[i]? else none := by
  unfold reached Wire.Writer.maxSize
  rw [List.getElem?_take]
  exact if_congr (by omega) rfl rfl

theorem ofNat_inj {j : Nat} (hi : i ≤ Wire.Writer.maxSize) (hj : j ≤ Wire.Writer.maxSize)
    (h : Int32.ofNat i = .ofNat j) : i = j := by
  rw [← (Wire.toInt_ofNat_size hi).2, h, (Wire.toInt_ofNat_size hj).2]

theorem isSome_codeOf? : (d.codeOf? member).isSome = true ↔ member ∈ d.members := by
  unfold codeOf?
  rw [Option.isSome_map, List.isSome_idxOf?]

/-- The code of a name is the first of its places. -/
theorem codeOf?_eq_some_iff : d.codeOf? member = some code ↔
    ∃ i, d.members[i]? = some member ∧ (∀ j < i, d.members[j]? ≠ some member) ∧
      code = .ofNat i := by
  unfold codeOf?
  rw [Option.map_eq_some_iff]
  refine exists_congr fun i => ?_
  rw [List.idxOf?_eq_some_iff, List.getElem?_eq_some_iff]
  constructor
  · rintro ⟨⟨hi, hmember, hfirst⟩, hcode⟩
    refine ⟨⟨hi, hmember⟩, fun j hj hsame => ?_, hcode.symm⟩
    exact hfirst j hj (List.getElem?_eq_some_iff.mp hsame).2
  · rintro ⟨⟨hi, hmember⟩, hfirst, hcode⟩
    refine ⟨⟨hi, hmember, fun j hj hsame => hfirst j hj ?_⟩, hcode.symm⟩
    exact List.getElem?_eq_some_iff.mpr ⟨_, hsame⟩

/-! ## When names and codes belong together -/

/-- The members of the codes have these codes exactly if no two of them are equal. -/
theorem forall_code_iff :
    (∀ code member, d.memberOf? code = some member → d.codeOf? member = some code) ↔
      d.reached.Nodup := by
  constructor
  · intro h
    refine List.nodup_iff_getElem?_ne_getElem?.mpr fun i j hij hj hsame => ?_
    have hjmax : j ≤ Wire.Writer.maxSize := by
      unfold reached at hj
      rw [List.length_take] at hj
      unfold Wire.Writer.maxSize
      omega
    have hjget : d.members[j]? = some d.reached[j] := by
      rw [← List.getElem?_eq_getElem hj, getElem?_reached, if_pos hjmax]
    have higet : d.members[i]? = some d.reached[j] := by
      rw [← List.getElem?_eq_getElem hj, ← hsame, getElem?_reached, if_pos (by omega)]
    obtain ⟨k, -, hfirst, hcode⟩ := codeOf?_eq_some_iff.mp
      (h (.ofNat j) d.reached[j] ((memberOf?_ofNat hjmax).trans hjget))
    have hki : k ≤ i := Nat.not_lt.mp fun hlt => hfirst i hlt higet
    have hjk := ofNat_inj hjmax (by omega) hcode
    omega
  · intro hnodup code member h
    obtain ⟨i, hi, rfl, hmember⟩ := memberOf?_eq_some h
    refine codeOf?_eq_some_iff.mpr ⟨i, hmember, fun j hj hearlier => ?_, rfl⟩
    have hjget : d.reached[j]? = some member := by
      rw [getElem?_reached, if_pos (by omega), hearlier]
    have higet : d.reached[i]? = some member := by
      rw [getElem?_reached, if_pos hi, hmember]
    have hlt := (List.getElem?_eq_some_iff.mp hjget).1
    have hji := (List.getElem?_inj hlt hnodup).mp (hjget.trans higet.symm)
    omega

/-- The codes of the members have these members exactly if each of them is reached. -/
theorem forall_member_iff :
    (∀ member ∈ d.members, (d.codeOf? member).bind d.memberOf? = some member) ↔
      d.members ⊆ d.reached := by
  constructor
  · intro h member hmem
    obtain ⟨code, -, hmember⟩ := Option.bind_eq_some_iff.mp (h member hmem)
    obtain ⟨i, hi, rfl, hget⟩ := memberOf?_eq_some hmember
    exact List.mem_iff_getElem?.mpr ⟨i, by rw [getElem?_reached, if_pos hi, hget]⟩
  · intro h member hmem
    obtain ⟨i, hget⟩ := List.mem_iff_getElem?.mp (h hmem)
    rw [getElem?_reached] at hget
    obtain ⟨hi, hget⟩ := Option.ite_none_right_eq_some.mp hget
    obtain ⟨code, hcode⟩ := Option.isSome_iff_exists.mp (isSome_codeOf?.mpr hmem)
    obtain ⟨k, hk, hfirst, rfl⟩ := codeOf?_eq_some_iff.mp hcode
    have hki : k ≤ i := Nat.not_lt.mp fun hlt => hfirst i hlt hget
    rw [hcode, Option.bind_some, memberOf?_ofNat (by omega), hk]

theorem paired_iff : d.Paired ↔ d.reached.Nodup ∧ d.members ⊆ d.reached := by
  constructor
  · exact fun h => ⟨forall_code_iff.mp h.code, forall_member_iff.mp h.member⟩
  · rintro ⟨hcode, hmember⟩
    exact ⟨fun _ => isSome_memberOf?, forall_code_iff.mpr hcode, forall_member_iff.mpr hmember⟩

theorem Coded.reached_eq (h : d.Coded) : d.reached = d.members := List.take_of_length_le h

end EnumDef

namespace Codec

open Wire

variable {s : Schema} {ty : Ty} {d : EnumDef} {member : String} {code : Int32}

/-- A code that arrives for the type is decoded to a value, and this is encoded into the same
bytes. -/
def Relays (s : Schema) (ty : Ty) (code : Int32) : Prop :=
  ∃ bytes v, Writes (Writer.i32 code) bytes ∧ Reads (decode s ty .i32) bytes (some v) ∧
    Writes (encode s ty v) bytes

theorem decode_code (hr : resolve s ty = .ok (.enum d)) (hmember : d.memberOf? code = some member) :
    Carried (Writer.i32 code) (decode s ty .i32) (some (.enum d.name member)) := by
  have hread : Carried (Writer.i32 code) (readEnum d) (.enum d.name member) := by
    refine (Carried.i32 code).andThen ?_
    rw [hmember]
    exact Reads.pure _
  obtain ⟨bytes, hw, hread⟩ := hread
  refine ⟨bytes, hw, ?_⟩
  show Reads (readWithin s depthLimit ty (Shape.enum d).wireType) bytes _
  rw [readWithin_of_resolve hr]
  exact (hread.adapt Fault.wire).map some

theorem encode_member (hr : resolve s ty = .ok (.enum d)) (hcode : d.codeOf? member = some code) :
    encode s ty (.enum d.name member) = (Writer.i32 code : Writing Unit) := by
  have hmem : member ∈ d.members := EnumDef.isSome_codeOf?.mp (by rw [hcode]; rfl)
  have hprepared : prepare s ty (.enum d.name member) = .ok (.enum d.name member) := by
    unfold prepare
    rw [hr]
    show orMismatch ty _ (if d.name = d.name ∧ member ∈ d.members then _ else _) = _
    rw [if_pos ⟨rfl, hmem⟩]
    rfl
  unfold encode
  rw [hprepared]
  show write s ty (.enum d.name member) = _
  unfold write
  rw [hr]
  show writeEnum ty d (.enum d.name member) = _
  unfold writeEnum
  simp only [hcode]

/-- A known code is sent on as it is exactly if it is the code of its member. -/
theorem relays_iff (hr : resolve s ty = .ok (.enum d)) (hmember : d.memberOf? code = some member) :
    Relays s ty code ↔ d.codeOf? member = some code := by
  obtain ⟨bytes, hw, hread⟩ := decode_code hr hmember
  constructor
  · rintro ⟨bytes', v, hw', hread', hencode⟩
    cases hw'.unique hw
    have hv : v = .enum d.name member := by
      have h := (hread' []).symm.trans (hread [])
      cases h
      rfl
    subst hv
    obtain ⟨i, -, -, hget⟩ := EnumDef.memberOf?_eq_some hmember
    obtain ⟨sent, hsent⟩ := Option.isSome_iff_exists.mp
      (EnumDef.isSome_codeOf?.mpr (List.mem_iff_getElem?.mpr ⟨i, hget⟩))
    rw [encode_member hr hsent] at hencode
    obtain ⟨bytes', hw', hback'⟩ := Carried.i32 sent
    cases (hw'.adapt Fault.wire).unique hencode
    have hback := (Carried.i32 code).reads hw
    have hsame := (hback []).symm.trans (hback' [])
    cases hsame
    exact hsent
  · intro hcode
    refine ⟨bytes, .enum d.name member, hw, hread, ?_⟩
    rw [encode_member hr hcode]
    exact hw.adapt Fault.wire

theorem forall_relays_iff (hr : resolve s ty = .ok (.enum d)) :
    (∀ code, (d.memberOf? code).isSome = true → Relays s ty code) ↔ d.reached.Nodup := by
  rw [← EnumDef.forall_code_iff]
  constructor
  · exact fun h code member hmember =>
      (relays_iff hr hmember).mp (h code (Option.isSome_iff_exists.mpr ⟨member, hmember⟩))
  · intro h code hknown
    obtain ⟨member, hmember⟩ := Option.isSome_iff_exists.mp hknown
    exact (relays_iff hr hmember).mpr (h code member hmember)

end Codec

/-! ## Compiled schemas -/

namespace Compile

open Codec (Relays)

variable {config : Config} {library : Library} {root : Option Files.Path} {nodes : List Idl.Node}
  {s : Schema} {name : String} {d : EnumDef}

theorem Closed.resolve_enum (h : Closed s) (hd : (name, d) ∈ s.enums) :
    Codec.resolve s (.named name) = .ok (.enum d) := by
  have hnames := h.names
  unfold Schema.definedNames at hnames
  have hnames := (List.nodup_append.mp (List.nodup_append.mp (List.nodup_append.mp hnames).1).1).1
  obtain ⟨hstructs, henums, hapart⟩ := List.nodup_append.mp hnames
  have hname : name ∈ s.enums.map Prod.fst := List.mem_map_of_mem (f := Prod.fst) hd
  have hstruct : s.structs.find? name = none := Table.find?_eq_none.mpr fun hm =>
    hapart name (List.mem_append_left _ hm) name hname rfl
  have hexception : s.exceptions.find? name = none := Table.find?_eq_none.mpr fun hm =>
    hapart name (List.mem_append_right _ hm) name hname rfl
  have hlookup : s.lookup name = some (.enum d) := by
    unfold Schema.lookup
    rw [hstruct, hexception, Table.find?_of_mem henums hd]
    rfl
  exact Codec.resolveWithin_of_lookup hlookup

/-- An enum of a compiled schema has the members that were written, in their order, and a code is
known exactly if it is the place of one. Names and codes belong together exactly if no name stands
twice, as far as there are codes; and only then is every known code sent on as it came. -/
theorem enum_paired_iff (h : compile config library root nodes = .ok s) (hd : (name, d) ∈ s.enums) :
    (∃ program members, expand library root nodes = .ok program ∧
      Idl.Node.enum name members ∈ program.map (·.node) ∧ d = ⟨name, members.map (·.name)⟩) ∧
      (∀ code, (d.memberOf? code).isSome = true ↔ 0 ≤ code ∧ code.toInt < d.members.length) ∧
      (d.Paired ↔ d.reached.Nodup ∧ d.members ⊆ d.reached) ∧
      (d.Coded → (d.Paired ↔ d.members.Nodup)) ∧
      Codec.resolve s (.named name) = .ok (.enum d) ∧
      ∀ ty, Codec.resolve s ty = .ok (.enum d) →
        ((∀ code, (d.memberOf? code).isSome = true → Relays s ty code) ↔ d.reached.Nodup) := by
  obtain ⟨program, hprogram, hbuilt, hclosed⟩ := compile_ok h
  refine ⟨?_, fun _ => EnumDef.isSome_memberOf?, EnumDef.paired_iff, fun hcoded => ?_,
    hclosed.resolve_enum hd, fun ty hr => Codec.forall_relays_iff hr⟩
  · rw [hbuilt.declares.enums] at hd
    obtain ⟨written, hwritten, hentry⟩ := List.mem_map.mp hd
    obtain ⟨node, hnode, henum⟩ := List.mem_filterMap.mp hwritten
    cases node with
    | enum name' members =>
      cases henum
      cases hentry
      exact ⟨program, members, hprogram, hnode, rfl⟩
    | _ => cases henum
  · rw [EnumDef.paired_iff, hcoded.reached_eq]
    exact and_iff_left (List.Subset.refl _)

/-- An enum of two names, of which one has a number that means nothing, and an alias of it. -/
def signalProgram : List Idl.Node :=
  let lamp := "Lamp"
  [.enum "Signal" [⟨"stop", some 7⟩, ⟨"go", none⟩], .typedef lamp (.named "Signal")]

def signal : EnumDef := ⟨"Signal", ["stop", "go"]⟩

theorem enum_paired_iff_signal :
    ∃ s, compile {} (.listed []) none signalProgram = .ok s ∧ ("Signal", signal) ∈ s.enums ∧
      signal.Coded ∧ signal.members.Nodup ∧ signal.Paired ∧ signal.memberOf? 1 = some "go" ∧
      Codec.resolve s (.named "Lamp") = .ok (.enum signal) ∧ Relays s (.named "Lamp") 1 := by
  have hcompile : compile {} (.listed []) none signalProgram =
    .ok { enums := [("Signal", signal)], typedefs := [("Lamp", .named "Signal")] } := rfl
  have hd : ("Signal", signal) ∈ [("Signal", signal)] := List.mem_cons_self
  have hcoded : signal.Coded := by decide
  have hdistinct : signal.members.Nodup := by decide
  obtain ⟨-, -, -, hpaired, -, hrelays⟩ := enum_paired_iff hcompile hd
  refine ⟨_, hcompile, hd, hcoded, hdistinct, (hpaired hcoded).mpr hdistinct, rfl, rfl, ?_⟩
  exact (hrelays (.named "Lamp") rfl).mpr (hcoded.reached_eq.symm ▸ hdistinct) 1 rfl

/-- An enum that says one name twice. -/
def switchProgram : List Idl.Node :=
  [.enum "Switch" [⟨"on", none⟩, ⟨"off", none⟩, ⟨"on", none⟩]]

/-- It is accepted. The last code leads to a name with another code, and is not sent on as it
came. -/
theorem switch_unpaired :
    ∃ s d, compile {} (.listed []) none switchProgram = .ok s ∧ s.enums = [("Switch", d)] ∧
      d.members.length = 3 ∧ d.memberOf? 2 = some "on" ∧ d.codeOf? "on" = some 0 ∧ ¬d.Paired ∧
      Codec.resolve s (.named "Switch") = .ok (.enum d) ∧ ¬Relays s (.named "Switch") 2 := by
  have hcode : EnumDef.codeOf? ⟨"Switch", ["on", "off", "on"]⟩ "on" = some 0 := rfl
  refine ⟨_, _, rfl, rfl, rfl, rfl, rfl, fun h => ?_, rfl, fun h => ?_⟩
  · cases hcode.symm.trans (h.code 2 "on" rfl)
  · cases hcode.symm.trans ((Codec.relays_iff rfl rfl).mp h)

end Compile

end ThriftRpc
