import ThriftRpc.Proofs.Codec.Rearranged
import ThriftRpc.Proofs.Codec.RoundTrip
import ThriftRpc.Proofs.Text.Length
import ThriftRpc.Proofs.Wire.Gives

/-!
# What decoding gives

Off any bytes, whatever is read for a type conforms to it, can be written for it and nests within
the limit (`readWithin_gives`): fields that come twice or in any order, elements that are left out,
texts that are coerced and codes that no member owns included. So what was decoded can be sent on
(`decoded_sent_on`).
-/

namespace ThriftRpc.Codec

open Wire
open Value (Rearranged)

variable {s : Schema} {ty : Ty} {v : Value} {d : StructDef} {n : Nat}

/-- A value of the type with its fields in any order, that can be written and nests at most so
deep. -/
structure Sound (s : Schema) (n : Nat) (ty : Ty) (v : Value) : Prop where
  conforms : Conforms s StructDef.Declared ty v
  writable : Writable s ty v
  depth : v.depth ≤ n

theorem Sound.prim {p : Primitive} (hr : resolve s ty = .ok (.prim p)) (hv : p.Holds v)
    (hl : v.length ≤ Writer.maxSize) : Sound s n ty v :=
  ⟨.prim hr hv, .prim hr hv hl, hv.depth_le n⟩

theorem Sound.enum {e : EnumDef} (hr : resolve s ty = .ok (.enum e))
    (h : Conforms s StructDef.Declared ty v) : Sound s n ty v := by
  cases h with
  | member hr' hm => exact ⟨.member hr' hm, .member hr' hm, Nat.zero_le n⟩
  | unknownMember hr' => exact ⟨.unknownMember hr', .unknownMember hr', Nat.zero_le n⟩
  | prim hr' | list hr' | set hr' | map hr' | struct hr' => cases hr.symm.trans hr'

theorem readPrimitive_gives (p : Primitive) :
    Gives (readPrimitive p) fun v => p.Holds v ∧ v.length ≤ Writer.maxSize := by
  have scalar {α : Type} {r : Reader α} {f : α → Value} (h : ∀ a, p.Holds (f a))
      (hl : ∀ a, (f a).length = 0) :
      Gives (f <$> r) fun v => p.Holds v ∧ v.length ≤ Writer.maxSize :=
    .map f (.of_forall fun a => ⟨h a, hl a ▸ Nat.zero_le _⟩)
  cases p with
  | bool => exact scalar .bool fun _ => rfl
  | byte => exact scalar .byte fun _ => rfl
  | i16 => exact scalar .i16 fun _ => rfl
  | i32 => exact scalar .i32 fun _ => rfl
  | i64 => exact scalar .i64 fun _ => rfl
  | double => exact scalar .double fun _ => rfl
  | string => exact .map Value.string (Reader.string_gives.mono fun text hl => ⟨.string text, hl⟩)
  | binary => exact .map Value.binary (Reader.binary_gives.mono fun data hl => ⟨.binary data, hl⟩)

theorem readEnum_gives {e : EnumDef} (hr : resolve s ty = .ok (.enum e)) :
    Gives (readEnum e) (Conforms s StructDef.Declared ty) := by
  refine .after fun code => ?_
  cases hm : e.memberOf? code with
  | none => exact .pure (.unknownMember hr)
  | some m =>
    refine .pure (.member hr ?_)
    unfold EnumDef.memberOf? at hm
    split at hm
    · cases hm
    · exact List.mem_of_getElem? hm

/-- The text has a length that could be written. -/
def TextFits (t : String) : Prop := (Text.Utf8.encode t).length ≤ Writer.maxSize

theorem textFits_boolText (b : Bool) : TextFits (Value.boolText b) := by
  refine text_fits ?_
  cases b <;> decide

theorem textFits_toString {k : Int} (hlow : -0x8000000000000000 ≤ k)
    (hhigh : k < 0x8000000000000000) : TextFits (toString k) :=
  text_fits (Nat.le_trans (length_toString_le hlow hhigh) (by decide))

theorem readAsText_gives (w : WireType) :
    Gives (readAsText w) fun o => ∀ t, o = some t → TextFits t := by
  have scalar {α : Type} {r : Reader α} {f : α → String} (h : ∀ a, TextFits (f a)) :
      Gives (do return some (f (← r))) fun o : Option String => ∀ t, o = some t → TextFits t := by
    refine .after fun a => .pure ?_
    rintro t ⟨⟩
    exact h a
  have other (w : WireType) : Gives (do Reader.skip w; return none : Reader (Option String))
      fun o => ∀ t, o = some t → TextFits t := .after fun _ => .pure fun _ h => nomatch h
  cases w with
  | bool => exact scalar textFits_boolText
  | byte =>
    exact scalar fun k => textFits_toString (Int.le_trans (by decide) k.le_toInt)
      (Int.lt_of_lt_of_le k.toInt_lt (by decide))
  | i16 =>
    exact scalar fun k => textFits_toString (Int.le_trans (by decide) k.le_toInt)
      (Int.lt_of_lt_of_le k.toInt_lt (by decide))
  | i32 =>
    exact scalar fun k => textFits_toString (Int.le_trans (by decide) k.le_toInt)
      (Int.lt_of_lt_of_le k.toInt_lt (by decide))
  | i64 => exact scalar fun k => textFits_toString k.le_toInt k.toInt_lt
  | double => exact scalar fun x => text_fits (Double.render_length_le x)
  | _ => exact other _

/-- No other value of a base type than a text has a length. -/
theorem narrow_length {p : Primitive} {k : Int} (h : narrow p k = some v) : v.length = 0 := by
  have hv := narrow_holds h
  cases hv with
  | string | binary => cases h
  | _ => rfl

theorem ofText_sound {shape : Shape} {t : String} (hr : resolve s ty = .ok shape)
    (ht : TextFits t) (h : ofText shape t = some v) : Sound s n ty v := by
  have number {p : Primitive} (hr : resolve s ty = .ok (.prim p))
      (h : (integerText? t).bind (narrow p) = some v) : Sound s n ty v := by
    obtain ⟨k, -, hk⟩ := Option.bind_eq_some_iff.mp h
    exact .prim hr (narrow_holds hk) (narrow_length hk ▸ Nat.zero_le _)
  cases shape with
  | prim p =>
    cases p with
    | bool => cases h; exact .prim hr (.bool _) (Nat.zero_le _)
    | double =>
      obtain ⟨x, -, rfl⟩ := Option.map_eq_some_iff.mp h
      exact .prim hr (.double x) (Nat.zero_le _)
    | string => cases h; exact .prim hr (.string t) ht
    | binary => cases h; exact .prim hr (.binary _) ht
    | byte => exact number hr h
    | i16 => exact number hr h
    | i32 => exact number hr h
    | i64 => exact number hr h
  | enum e => exact .enum hr (enumOfText_conforms hr h)
  | _ => cases h

/-- What the reader of values gives for a type, if anything, satisfies `P`. -/
def GivesEach (value : ValueReader) (P : Ty → Value → Prop) : Prop :=
  ∀ ty w, Gives (value ty w) fun o => ∀ v, o = some v → P ty v

/-- Declared fields, none twice, and each satisfies `P` for its type. -/
structure FieldsHold (P : Ty → Value → Prop) (d : StructDef) (fields : List (String × Value)) :
    Prop where
  names : d.Declared (fields.map Prod.fst)
  values : ∀ f ∈ d.fieldDefs, ∀ v, Table.find? f.name fields = some v → P f.type v

section Nested

variable {value : ValueReader} {P : Ty → Value → Prop} {fields : List (String × Value)}

theorem FieldsHold.nil : FieldsHold P d [] :=
  ⟨⟨List.nodup_nil, List.nil_subset _⟩, fun _ _ _ h => nomatch h⟩

/-- A field that comes again takes the place of the one before. -/
theorem FieldsHold.insert (hd : d.fieldNames.Nodup) (h : FieldsHold P d fields) {f : FieldDef}
    (hf : f ∈ d.fieldDefs) (hv : P f.type v) :
    FieldsHold P d (Table.insert f.name v fields) := by
  refine ⟨⟨Table.nodup_keys_insert h.names.1, ?_⟩, ?_⟩
  · rw [Table.keys_insert]
    split
    · exact h.names.2
    · refine List.append_subset.mpr ⟨h.names.2, fun name hname => ?_⟩
      rw [List.mem_singleton.mp hname]
      exact List.mem_map_of_mem (f := FieldDef.name) hf
  · intro g hg w hw
    rw [Table.find?_insert] at hw
    split at hw
    · next hname =>
      have hfg : f = g := List.inj_on_of_nodup_map hd hf hg hname
      cases hw
      exact hfg ▸ hv
    · exact h.values g hg w hw

/-- What holds of the value of each declared field holds of every field there is. -/
theorem FieldsHold.forall (h : FieldsHold P d fields) {Q : Value → Prop}
    (hPQ : ∀ f ∈ d.fieldDefs, ∀ v, P f.type v → Q v) : ∀ e ∈ fields, Q e.2 := by
  intro e he
  obtain ⟨f, hf, hname⟩ :=
    List.mem_map.mp (h.names.2 (List.mem_map_of_mem (f := Prod.fst) he))
  exact hPQ f hf e.2 (h.values f hf e.2 (hname ▸ Table.find?_of_mem h.names.1 he))

theorem readFields_gives (hvalue : GivesEach value P) (hd : d.fieldNames.Nodup) (fuel : Nat)
    {done : Table String Value} (hdone : FieldsHold P d done) :
    Gives (readFields d value fuel done) (FieldsHold P d) := by
  induction fuel generalizing done with
  | zero => exact .throw _
  | succ fuel ih =>
    refine .after fun header => ?_
    by_cases hstop : header.wireType = .stop
    · simp only [if_pos hstop]
      exact .pure hdone
    · simp only [if_neg hstop]
      cases hf : d.field? header.index with
      | none => exact .after fun _ => ih hdone
      | some f =>
        have hmem : f ∈ d.fieldDefs := List.mem_map_of_mem (f := Prod.snd) (Table.mem_of_find? hf)
        refine (hvalue f.type header.wireType).bind fun o ho => ?_
        cases o with
        | none => exact ih hdone
        | some v => exact ih (hdone.insert hd hmem (ho v rfl))

theorem readFieldsOf_gives (hvalue : GivesEach value P) (hd : d.fieldNames.Nodup) :
    Gives (readFieldsOf d value) fun v =>
      ∃ fields, v = .struct d.name fields ∧ FieldsHold P d fields :=
  .after fun _ => (readFields_gives hvalue hd _ .nil).bind fun fields hfields =>
    .pure ⟨fields, rfl, hfields⟩

theorem readPresent_gives {α : Type} {read : Reading (Option α)} {Q : α → Prop}
    (h : Gives read fun o => ∀ a, o = some a → Q a) (n : Nat) :
    Gives (readPresent n read) fun as => as.length ≤ n ∧ ∀ a ∈ as, Q a := by
  induction n with
  | zero => exact .pure ⟨Nat.le_refl 0, List.forall_mem_nil _⟩
  | succ n ih =>
    refine h.bind fun o ho => ih.bind fun as has => .pure ?_
    cases o with
    | none => exact ⟨Nat.le_succ_of_le has.1, has.2⟩
    | some a =>
      exact ⟨Nat.succ_le_succ has.1, List.forall_mem_cons.mpr ⟨ho a rfl, has.2⟩⟩

theorem lift_gives {α : Type} {e : Except Fault α} {Q : α → Prop} (h : ∀ a, e = .ok a → Q a) :
    Gives (e : Reading α) Q := by
  cases e with
  | error fault => exact .throw fault
  | ok a => exact .pure (h a rfl)

end Nested

section Containers

variable {descend : Reading ValueReader}

/-- What is nested in a value that nests at most `n` deep nests a level less. -/
def DescendsSound (s : Schema) (n : Nat) (descend : Reading ValueReader) : Prop :=
  Gives descend fun value => ∃ m, n = m + 1 ∧ GivesEach value (Sound s m)

theorem exists_resolve_of_wireType {w : WireType} (h : wireType s ty = .ok w) :
    ∃ shape, resolve s ty = .ok shape := by
  obtain ⟨shape, hshape, -⟩ := map_eq_ok h
  exact ⟨shape, hshape⟩

theorem readItems_gives {elem : Ty} (hdescend : DescendsSound s n descend) :
    Gives (readItems s descend elem) fun o => ∀ items, o = some items →
      (∃ shape, resolve s elem = .ok shape) ∧ items.length ≤ Writer.maxSize ∧
        ∃ m, n = m + 1 ∧ ∀ v ∈ items, Sound s m elem v := by
  refine .after fun header => hdescend.bind fun value hvalue => ?_
  obtain ⟨m, rfl, hvalue⟩ := hvalue
  refine (lift_gives fun w => exists_resolve_of_wireType).bind fun w hw => ?_
  split
  · refine (readPresent_gives (hvalue elem header.element) header.rounds).bind fun items hitems => ?_
    refine .pure ?_
    rintro _ ⟨⟩
    exact ⟨hw, Nat.le_trans hitems.1 (rounds_le_maxSize _ _), m, rfl, hitems.2⟩
  · exact .after fun _ => .pure fun _ h => nomatch h

theorem readEntries_gives {key value : Ty} (hdescend : DescendsSound s n descend) :
    Gives (readEntries s descend key value) fun o => ∀ entries, o = some entries →
      (∃ shape, resolve s key = .ok shape) ∧ (∃ shape, resolve s value = .ok shape) ∧
        entries.length ≤ Writer.maxSize ∧
        ∃ m, n = m + 1 ∧ ∀ e ∈ entries, Sound s m key e.1 ∧ Sound s m value e.2 := by
  refine hdescend.bind fun read hread => .after fun header => ?_
  obtain ⟨m, rfl, hread⟩ := hread
  refine (lift_gives fun w => exists_resolve_of_wireType).bind fun keyWire hk => ?_
  refine (lift_gives fun w => exists_resolve_of_wireType).bind fun valueWire hv => ?_
  split
  · have hentry : Gives (do
          let k ← read key header.key
          let v ← read value header.value
          return k.bind fun k => v.map fun v => (k, v)) fun o => ∀ e, o = some e →
        Sound s m key e.1 ∧ Sound s m value e.2 := by
      refine (hread key header.key).bind fun k hk => ?_
      refine (hread value header.value).bind fun v hv => .pure ?_
      intro e he
      obtain ⟨k', rfl, hmap⟩ := Option.bind_eq_some_iff.mp he
      obtain ⟨v', rfl, rfl⟩ := Option.map_eq_some_iff.mp hmap
      exact ⟨hk k' rfl, hv v' rfl⟩
    refine (readPresent_gives hentry header.rounds).bind fun entries hentries => .pure ?_
    rintro _ ⟨⟩
    exact ⟨hk, hv, Nat.le_trans hentries.1 (rounds_le_maxSize _ _), m, rfl, hentries.2⟩
  · exact .after fun _ => .pure fun _ h => nomatch h

/-! ## Values -/

theorem Sound.list {elem : Ty} {items : List Value} {m : Nat} (hr : resolve s ty = .ok (.list elem))
    (he : ∃ shape, resolve s elem = .ok shape) (hl : items.length ≤ Writer.maxSize)
    (h : ∀ v ∈ items, Sound s m elem v) : Sound s (m + 1) ty (.list items) := by
  obtain ⟨shape, he⟩ := he
  exact ⟨.list hr fun v hv => (h v hv).conforms, .list hr he hl fun v hv => (h v hv).writable,
    Value.depth_list_le.mpr ⟨m, rfl, fun v hv => (h v hv).depth⟩⟩

/-- Of equal elements the first is kept. -/
theorem Sound.set {elem : Ty} {items : List Value} {m : Nat} (hr : resolve s ty = .ok (.set elem))
    (he : ∃ shape, resolve s elem = .ok shape) (hl : items.length ≤ Writer.maxSize)
    (h : ∀ v ∈ items, Sound s m elem v) : Sound s (m + 1) ty (.set (Value.distinct items)) := by
  obtain ⟨shape, he⟩ := he
  have hkept : ∀ v ∈ Value.distinct items, Sound s m elem v := fun v hv =>
    h v (Value.mem_of_mem_distinct hv)
  exact ⟨.set hr (fun v hv => (hkept v hv).conforms) (Value.apart_distinct items),
    .set hr he (Nat.le_trans (Value.length_distinct_le items) hl) fun v hv => (hkept v hv).writable,
    Value.depth_set_le.mpr ⟨m, rfl, fun v hv => (hkept v hv).depth⟩⟩

theorem Sound.map {key value : Ty} {entries : List (Value × Value)} {m : Nat}
    (hr : resolve s ty = .ok (.map key value)) (hk : ∃ shape, resolve s key = .ok shape)
    (hv : ∃ shape, resolve s value = .ok shape) (hl : entries.length ≤ Writer.maxSize)
    (h : ∀ e ∈ entries, Sound s m key e.1 ∧ Sound s m value e.2) :
    Sound s (m + 1) ty (.map entries) := by
  obtain ⟨keyShape, hk⟩ := hk
  obtain ⟨valueShape, hv⟩ := hv
  exact ⟨.map hr (fun e he => (h e he).1.conforms) fun e he => (h e he).2.conforms,
    .map hr hk hv hl (fun e he => (h e he).1.writable) fun e he => (h e he).2.writable,
    Value.depth_map_le.mpr ⟨m, rfl, fun e he => ⟨(h e he).1.depth, (h e he).2.depth⟩⟩⟩

theorem Sound.struct {fields : List (String × Value)} {m : Nat}
    (hr : resolve s ty = .ok (.struct d)) (h : FieldsHold (Sound s m) d fields) :
    Sound s (m + 1) ty (.struct d.name fields) :=
  ⟨.struct hr h.names fun f hf v hv => (h.values f hf v hv).conforms,
    .struct hr fun f hf v hv => (h.values f hf v hv).writable,
    Value.depth_struct_le.mpr ⟨m, rfl, h.forall fun _ _ _ hv => hv.depth⟩⟩

theorem readShape_gives (hs : ∀ d ∈ s.structDefs, d.fieldNames.Nodup) {shape : Shape}
    (hr : resolve s ty = .ok shape) (hdescend : DescendsSound s n descend) :
    Gives (readShape s descend shape) fun o => ∀ v, o = some v → Sound s n ty v := by
  cases shape with
  | prim p =>
    refine .map some (Gives.adapt _ ((readPrimitive_gives p).mono fun v hv => ?_))
    rintro _ ⟨⟩
    exact .prim hr hv.1 hv.2
  | enum e =>
    refine .map some (Gives.adapt _ ((readEnum_gives hr).mono fun v hv => ?_))
    rintro _ ⟨⟩
    exact .enum hr hv
  | struct d =>
    refine hdescend.bind fun value hvalue => ?_
    obtain ⟨m, rfl, hvalue⟩ := hvalue
    refine (readFieldsOf_gives hvalue (hs d (mem_structDefs_of_resolve hr))).bind fun v hv => ?_
    obtain ⟨fields, rfl, hfields⟩ := hv
    refine .pure ?_
    rintro _ ⟨⟩
    exact .struct hr hfields
  | list elem =>
    refine (readItems_gives hdescend).bind fun o ho => .pure fun v hv => ?_
    obtain ⟨items, rfl, rfl⟩ := Option.map_eq_some_iff.mp hv
    obtain ⟨he, hl, m, rfl, hitems⟩ := ho items rfl
    exact .list hr he hl hitems
  | set elem =>
    refine (readItems_gives hdescend).bind fun o ho => .pure fun v hv => ?_
    obtain ⟨items, rfl, rfl⟩ := Option.map_eq_some_iff.mp hv
    obtain ⟨he, hl, m, rfl, hitems⟩ := ho items rfl
    exact .set hr he hl hitems
  | map key value =>
    refine (readEntries_gives hdescend).bind fun o ho => .pure fun v hv => ?_
    obtain ⟨entries, rfl, rfl⟩ := Option.map_eq_some_iff.mp hv
    obtain ⟨hk, hv, hl, m, rfl, hentries⟩ := ho entries rfl
    exact .map hr hk hv hl hentries

theorem readCoerced_gives (hs : ∀ d ∈ s.structDefs, d.fieldNames.Nodup)
    (hdescend : DescendsSound s n descend) : GivesEach (readCoerced s descend) (Sound s n) := by
  intro ty observed
  unfold readCoerced
  split
  · exact .pure fun _ h => nomatch h
  refine (lift_gives fun shape h => h).bind fun shape hr => ?_
  split
  · exact readShape_gives hs hr hdescend
  split
  · refine ((readAsText_gives observed).adapt Fault.wire).bind fun o ho => .pure fun v hv => ?_
    obtain ⟨t, rfl, hv⟩ := Option.bind_eq_some_iff.mp hv
    exact ofText_sound hr (ho t rfl) hv
  split
  · refine (Reader.binary_gives.adapt Fault.wire).bind fun data hdata => .pure fun v hv => ?_
    obtain ⟨t, ht, hv⟩ := Option.bind_eq_some_iff.mp hv
    refine ofText_sound hr ?_ hv
    cases hdecode : Text.Utf8.decode data with
    | error fault => rw [hdecode] at ht; cases ht
    | ok t' =>
      rw [hdecode] at ht
      cases ht
      unfold TextFits
      rwa [← Text.Utf8.decode_eq_ok_iff.mp hdecode]
  · exact .after fun _ => .pure fun _ h => nomatch h

/-- Whatever is read for a type is a value of it, in any order of fields. -/
theorem readWithin_gives (hs : ∀ d ∈ s.structDefs, d.fieldNames.Nodup) (n : Nat) :
    GivesEach (readWithin s n) (Sound s n) := by
  induction n with
  | zero => exact readCoerced_gives hs (.throw _)
  | succ n ih => exact readCoerced_gives hs (.pure ⟨n, rfl, ih⟩)

end Containers

/-! ## Sending on -/

/-- A sound value is written, in order of declaration, and read back but for that order. -/
theorem Sound.sent_on (hs : s.Keyed) (h : Sound s depthLimit ty v) {out : Output}
    (hout : out.room = none) :
    ∃ bytes w p, encode s ty v out = (.ok (), { out with sent := out.sent ++ bytes }) ∧
      wireType s ty = .ok w ∧
      (∀ rest, decode s ty w (bytes ++ rest) = (.ok (some p), rest)) ∧ Rearranged v p := by
  have hnames : ∀ d ∈ s.structDefs, d.fieldNames.Nodup := fun d hd => (hs.structs d hd).names
  obtain ⟨p, hp, hvp⟩ := prepare_of_conforms hnames h.conforms
  have hwritable := h.writable.rearranged hvp
  obtain ⟨shape, hr⟩ := hwritable.resolves
  have hread := written_carried hs (prepare_conforms hnames hp) hwritable hr depthLimit
  obtain ⟨bytes, hwrites, hreads⟩ := hread.carried (hvp.depth_le h.depth)
  refine ⟨bytes, shape.wireType, p, ?_, wireType_eq hr, hreads, hvp⟩
  unfold encode
  rw [hp]
  exact hwrites out hout

/-- Whatever was decoded conforms to its type, can be encoded, and what is written is decoded as the
same value up to the order of fields. -/
theorem decoded_sent_on (hs : s.Keyed) {observed : WireType} {input left : List UInt8}
    (h : decode s ty observed input = (.ok (some v), left)) {out : Output}
    (hout : out.room = none) :
    Conforms s StructDef.Declared ty v ∧
      ∃ bytes w p, encode s ty v out = (.ok (), { out with sent := out.sent ++ bytes }) ∧
        wireType s ty = .ok w ∧
        (∀ rest, decode s ty w (bytes ++ rest) = (.ok (some p), rest)) ∧ Rearranged v p := by
  have hsound := readWithin_gives (fun d hd => (hs.structs d hd).names) depthLimit ty observed h v rfl
  exact ⟨hsound.conforms, hsound.sent_on hs hout⟩

/-- Two points with their fields in either order: the first has a code and its numbers as texts, one
of which is no number, and the second is equal to it. -/
def pointBytes : List UInt8 :=
  [12, 0, 0, 0, 2,
    11, 0, 2, 0, 0, 0, 1, 49, 15, 0, 1, 11, 0, 0, 0, 2, 0, 0, 0, 1, 55, 0, 0, 0, 1, 120, 0,
    15, 0, 1, 8, 0, 0, 0, 1, 0, 0, 0, 7, 8, 0, 2, 0, 0, 0, 1, 0]

theorem decoded_points_sent_on :
    let ty : Ty := .named "Points"
    let decoded : Value :=
      .set [.struct "Point" [("colour", .enum "Colour" "green"), ("at", .list [.i32 7])]]
    decode pointSchema ty .set pointBytes = (.ok (some decoded), []) ∧
      Conforms pointSchema StructDef.Declared ty decoded ∧
      ∃ bytes w p, encode pointSchema ty decoded {} = (.ok (), { sent := bytes }) ∧
        wireType pointSchema ty = .ok w ∧
        (∀ rest, decode pointSchema ty w (bytes ++ rest) = (.ok (some p), rest)) ∧
        Rearranged decoded p :=
  have h : decode pointSchema (.named "Points") .set pointBytes = (.ok (some (.set [.struct "Point"
      [("colour", .enum "Colour" "green"), ("at", .list [.i32 7])]])), []) := by rfl
  ⟨h, decoded_sent_on (by decide) h rfl⟩

end ThriftRpc.Codec
