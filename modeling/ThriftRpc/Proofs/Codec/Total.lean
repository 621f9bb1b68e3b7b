import ThriftRpc.Proofs.Codec.Decoded
import ThriftRpc.Proofs.Codec.Loops
import ThriftRpc.Proofs.Compile.Regular
import ThriftRpc.Proofs.Wire.Raises

/-!
# Decoding any bytes

Off any bytes, for any type and whatever the wire announces, decoding ends: in a value that nests
within the limit, in none, or in a fault of the input (`readWithin_raises`). A type may be unknown
besides, but not if the names in it and in the schema resolve, as they do in a compiled schema.
-/

namespace ThriftRpc.Codec

open Wire

variable {s : Schema} {ty : Ty} {n : Nat}

/-- The fault lies in the input. -/
def Fault.Inbound : Fault → Prop
  | wire fault => fault.Inbound
  | _ => False

/-- The fault lies in the input, or a type is unknown, which it cannot be under `known`. -/
def OfInput (known : Prop) (fault : Fault) : Prop :=
  fault.Inbound ∨ (∃ name, fault = .unknownType name) ∧ ¬ known

theorem OfInput.mono {known known' : Prop} {fault : Fault} (h : OfInput known fault)
    (himp : known' → known) : OfInput known' fault :=
  h.imp_right fun h => ⟨h.1, fun hk => h.2 (himp hk)⟩

theorem resolveWithin_eq_error {hops : Nat} {fault : Fault}
    (h : resolveWithin s hops ty = .error fault) : ∃ name, fault = .unknownType name := by
  induction hops using Nat.strongRecOn generalizing ty with
  | ind hops ih =>
    unfold resolveWithin at h
    split at h
    · cases h
    · cases h
    · cases h
    · cases h
    · split at h
      · cases h
      · cases h
      · cases h
      · split at h
        · exact ih _ (Nat.lt_succ_self _) h
        · cases h
          exact ⟨_, rfl⟩

theorem resolve_eq_error {fault : Fault} (h : resolve s ty = .error fault) :
    ∃ name, fault = .unknownType name :=
  resolveWithin_eq_error h

theorem wireType_eq_error {fault : Fault} (h : wireType s ty = .error fault) :
    resolve s ty = .error fault := by
  unfold wireType at h
  cases hr : resolve s ty with
  | error fault' =>
    rw [hr] at h
    exact congrArg Except.error (Except.error.inj h)
  | ok shape =>
    rw [hr] at h
    cases h

/-- The names in the schema and in the type resolve. -/
def Known (s : Schema) (ty : Ty) : Prop := s.Complete ∧ s.Resolves ty

theorem resolve_raises : ∀ fault, resolve s ty = .error fault → OfInput (Known s ty) fault := by
  intro fault h
  refine .inr ⟨resolveWithin_eq_error h, fun hknown => ?_⟩
  obtain ⟨shape, hshape⟩ := exists_resolve hknown.2
  cases h.symm.trans hshape

theorem wireType_raises : Raises (wireType s ty : Reading WireType) (OfInput (Known s ty)) :=
  .liftExcept fun fault h => resolve_raises fault (wireType_eq_error h)

/-- A reader of the wire fails for its input alone. -/
theorem wire_raises {α : Type} {r : Reader α} (h : Raises r Wire.Fault.Inbound) {known : Prop} :
    Raises (r : Reading α) (OfInput known) :=
  .adapt _ (h.mono fun _ hfault => .inl hfault)

theorem readAsText_raises (w : WireType) : Raises (readAsText w) Wire.Fault.Inbound := by
  have scalar {α : Type} {r : Reader α} (h : Raises r Wire.Fault.Inbound) (f : α → String) :
      Raises (do return some (f (← r)) : Reader (Option String)) Wire.Fault.Inbound :=
    h.bind fun _ => .pure _
  have other (w : WireType) : Raises (do Reader.skip w; return none : Reader (Option String))
      Wire.Fault.Inbound := (Reader.skipWithin_raises _ w).bind fun _ => .pure _
  cases w with
  | bool => exact scalar Reader.bool_raises Value.boolText
  | byte => exact scalar Reader.byte_raises fun n => toString n.toInt
  | i16 => exact scalar Reader.i16_raises fun n => toString n.toInt
  | i32 => exact scalar Reader.i32_raises fun n => toString n.toInt
  | i64 => exact scalar Reader.i64_raises fun n => toString n.toInt
  | double => exact scalar Reader.double_raises fun x => x.render Value.numberLayout
  | _ => exact other _

theorem readPrimitive_raises (p : Primitive) : Raises (readPrimitive p) Wire.Fault.Inbound := by
  cases p with
  | bool => exact .map _ Reader.bool_raises
  | byte => exact .map _ Reader.byte_raises
  | i16 => exact .map _ Reader.i16_raises
  | i32 => exact .map _ Reader.i32_raises
  | i64 => exact .map _ Reader.i64_raises
  | double => exact .map _ Reader.double_raises
  | string => exact .map _ Reader.string_raises
  | binary => exact .map _ Reader.binary_raises

theorem readEnum_raises (d : EnumDef) : Raises (readEnum d) Wire.Fault.Inbound := by
  refine Reader.i32_raises.bind fun code => ?_
  split
  · exact .pure _
  · exact .pure _

section Nested

variable {value : ValueReader} {descend : Reading ValueReader} {known : Prop}

/-- For each type the reader fails for its input, or for a name that does not resolve. -/
def RaisesEach (s : Schema) (value : ValueReader) : Prop :=
  ∀ ty w, Raises (value ty w) (OfInput (Known s ty))

theorem readFields_raises {d : StructDef} (h : RaisesEach s value)
    (hd : known → ∀ f ∈ d.fieldDefs, Known s f.type) (fuel : Nat) (done : Table String Value) :
    Raises (readFields d value fuel done) (OfInput known) := by
  induction fuel generalizing done with
  | zero => exact .throw (.inl trivial)
  | succ fuel ih =>
    refine (wire_raises Reader.fieldHeader_raises).bind fun header => ?_
    by_cases hstop : header.wireType = .stop
    · simp only [if_pos hstop]
      exact .pure done
    · simp only [if_neg hstop]
      cases hf : d.field? header.index with
      | none => exact (wire_raises (Reader.skipWithin_raises _ _)).bind fun _ => ih done
      | some f =>
        have hmem : f ∈ d.fieldDefs := List.mem_map_of_mem (f := Prod.snd) (Table.mem_of_find? hf)
        refine Raises.bind ((h f.type header.wireType).mono fun _ hfault =>
          hfault.mono fun hk => hd hk f hmem) fun o => ?_
        cases o with
        | none => exact ih done
        | some v => exact ih (done.insert f.name v)

theorem readPresent_raises {α : Type} {read : Reading (Option α)} {E : Fault → Prop}
    (h : Raises read E) (n : Nat) : Raises (readPresent n read) E := by
  induction n with
  | zero => exact .pure _
  | succ n ih => exact h.bind fun _ => ih.bind fun _ => .pure _

/-- To descend fails at the depth limit alone, and gives readers that fail for their input. -/
structure RaisesBelow (s : Schema) (descend : Reading ValueReader) : Prop where
  fails : Raises descend Fault.Inbound
  gives : Gives descend (RaisesEach s)

variable (h : RaisesBelow s descend)

include h

theorem readItems_raises {elem : Ty} (helem : known → Known s elem) :
    Raises (readItems s descend elem) (OfInput known) := by
  refine (wire_raises Reader.listHeader_raises).bind fun header => ?_
  refine (h.fails.mono fun _ => .inl).bind_gives h.gives fun value hvalue => ?_
  refine (wireType_raises.mono fun _ hfault => hfault.mono helem).bind fun w => ?_
  split
  · refine (readPresent_raises ?_ _).bind fun _ => .pure _
    exact (hvalue elem header.element).mono fun _ hfault => hfault.mono helem
  · exact (wire_raises (Reader.replicate_raises (Reader.skipWithin_raises _ _) _)).bind
      fun _ => .pure _

theorem readEntries_raises {key value : Ty} (hkey : known → Known s key)
    (hvalue : known → Known s value) : Raises (readEntries s descend key value) (OfInput known) := by
  refine (h.fails.mono fun _ => .inl).bind_gives h.gives fun read hread => ?_
  have hk (w : WireType) : Raises (read key w) (OfInput known) :=
    (hread key w).mono fun _ hfault => hfault.mono hkey
  have hv (w : WireType) : Raises (read value w) (OfInput known) :=
    (hread value w).mono fun _ hfault => hfault.mono hvalue
  refine (wire_raises Reader.mapHeader_raises).bind fun header => ?_
  refine (wireType_raises.mono fun _ hfault => hfault.mono hkey).bind fun keyWire => ?_
  refine (wireType_raises.mono fun _ hfault => hfault.mono hvalue).bind fun valueWire => ?_
  split
  · refine (readPresent_raises ?_ _).bind fun _ => .pure _
    exact (hk header.key).bind fun _ => (hv header.value).bind fun _ => .pure _
  · refine (wire_raises (Reader.replicate_raises ?_ _)).bind fun _ => .pure _
    exact (Reader.skipWithin_raises _ _).bind fun _ => Reader.skipWithin_raises _ _

theorem readShape_raises {shape : Shape} (hr : resolve s ty = .ok shape) :
    Raises (readShape s descend shape) (OfInput (Known s ty)) := by
  have hcomplete (hknown : Known s ty) : shape.Complete s := resolve_complete hknown.1 hknown.2 hr
  cases shape with
  | prim p => exact .map some (wire_raises (readPrimitive_raises p))
  | enum d => exact .map some (wire_raises (readEnum_raises d))
  | struct d =>
    refine (h.fails.mono fun _ => .inl).bind_gives h.gives fun value hvalue => ?_
    refine Raises.bind (Raises.get.bind fun rest => ?_) fun _ => .pure _
    refine (readFields_raises hvalue (fun hknown f hf => ?_) _ []).bind fun _ => .pure _
    exact ⟨hknown.1, hcomplete hknown f hf⟩
  | list elem =>
    exact (readItems_raises h fun hknown => ⟨hknown.1, hcomplete hknown⟩).bind fun _ => .pure _
  | set elem =>
    exact (readItems_raises h fun hknown => ⟨hknown.1, hcomplete hknown⟩).bind fun _ => .pure _
  | map key value =>
    exact (readEntries_raises h (fun hknown => ⟨hknown.1, (hcomplete hknown).1⟩)
      fun hknown => ⟨hknown.1, (hcomplete hknown).2⟩).bind fun _ => .pure _

theorem readCoerced_raises : RaisesEach s (readCoerced s descend) := by
  intro ty observed
  unfold readCoerced
  split
  · exact .pure none
  refine (Raises.liftExcept resolve_raises).bind_gives (lift_gives fun shape h => h) fun shape hr => ?_
  split
  · exact readShape_raises h hr
  split
  · exact (wire_raises (readAsText_raises observed)).bind fun _ => .pure _
  split
  · exact (wire_raises Reader.binary_raises).bind fun _ => .pure _
  · exact (wire_raises (Reader.skipWithin_raises _ observed)).bind fun _ => .pure _

omit h

theorem readWithin_raises (s : Schema) (depth : Nat) : RaisesEach s (readWithin s depth) := by
  induction depth with
  | zero => exact readCoerced_raises ⟨.throw trivial, .throw _⟩
  | succ depth ih => exact readCoerced_raises ⟨.pure _, .pure ih⟩

theorem readStruct_raises {d : StructDef} (hd : known → ∀ f ∈ d.fieldDefs, Known s f.type) :
    Raises (readStruct s d) (OfInput known) :=
  Raises.get.bind fun _ =>
    (readFields_raises (readWithin_raises s _) hd _ []).bind fun _ => .pure _

/-- Where the types of the fields resolve, the fault lies in the input. -/
theorem readStruct_inbound (hs : s.Complete) {d : StructDef}
    (hd : ∀ f ∈ d.fieldDefs, s.Resolves f.type) : Raises (readStruct s d) Fault.Inbound := by
  have hraises : Raises (readStruct s d) (OfInput True) :=
    readStruct_raises fun _ f hf => ⟨hs, hd f hf⟩
  exact hraises.mono fun _ h => h.resolve_right fun h => h.2 trivial

end Nested

/-! ## Depth -/

theorem ofText_depth {shape : Shape} {t : String} {v : Value} (h : ofText shape t = some v) :
    v.depth ≤ n := by
  have number {p : Primitive} (h : (integerText? t).bind (narrow p) = some v) : v.depth ≤ n := by
    obtain ⟨k, -, hk⟩ := Option.bind_eq_some_iff.mp h
    exact (narrow_holds hk).depth_le n
  cases shape with
  | prim p =>
    cases p with
    | bool => cases h; exact Nat.zero_le n
    | double =>
      obtain ⟨x, -, rfl⟩ := Option.map_eq_some_iff.mp h
      exact Nat.zero_le n
    | string => cases h; exact Nat.zero_le n
    | binary => cases h; exact Nat.zero_le n
    | byte => exact number h
    | i16 => exact number h
    | i32 => exact number h
    | i64 => exact number h
  | enum d =>
    have member {k : Int} (h : enumOfCode d k = some v) : v.depth ≤ n := by
      unfold enumOfCode at h
      split at h
      · obtain ⟨m, -, rfl⟩ := Option.map_eq_some_iff.mp h
        exact Nat.zero_le n
      · cases h
    change enumOfText d t = some v at h
    unfold enumOfText at h
    split at h
    · cases h; exact Nat.zero_le n
    · obtain ⟨k, -, hk⟩ := Option.bind_eq_some_iff.mp h
      exact member hk
  | _ => cases h

section Depth

variable {value : ValueReader} {descend : Reading ValueReader}

/-- Whatever the reader gives nests at most so deep. -/
def GivesShallow (n : Nat) (value : ValueReader) : Prop := GivesEach value fun _ v => v.depth ≤ n

theorem readFields_shallow {d : StructDef} (h : GivesShallow n value) (fuel : Nat)
    {done : Table String Value} (hdone : ∀ e ∈ done, e.2.depth ≤ n) :
    Gives (readFields d value fuel done) fun fields => ∀ e ∈ fields, e.2.depth ≤ n := by
  induction fuel generalizing done with
  | zero => exact .throw _
  | succ fuel ih =>
    refine .after fun header => ?_
    by_cases hstop : header.wireType = .stop
    · simp only [if_pos hstop]
      exact .pure hdone
    · simp only [if_neg hstop]
      cases d.field? header.index with
      | none => exact .after fun _ => ih hdone
      | some f =>
        refine (h f.type header.wireType).bind fun o ho => ?_
        cases o with
        | none => exact ih hdone
        | some v =>
          refine ih fun e he => ?_
          rcases Table.mem_insert he with rfl | he
          · exact ho v rfl
          · exact hdone e he

theorem readFieldsOf_shallow (h : GivesShallow n value) (d : StructDef) :
    Gives (readFieldsOf d value) fun v => v.depth ≤ n + 1 :=
  .after fun _ => (readFields_shallow h _ (List.forall_mem_nil _)).bind fun _ hfields =>
    .pure (Value.depth_struct_le.mpr ⟨n, rfl, hfields⟩)

/-- What is nested in a value that nests at most `n` deep nests a level less. -/
def DescendsShallow (n : Nat) (descend : Reading ValueReader) : Prop :=
  Gives descend fun value => ∃ m, n = m + 1 ∧ GivesShallow m value

theorem readItems_shallow {elem : Ty} (hdescend : DescendsShallow n descend) :
    Gives (readItems s descend elem) fun o => ∀ items, o = some items →
      ∃ m, n = m + 1 ∧ ∀ v ∈ items, v.depth ≤ m := by
  refine .after fun header => hdescend.bind fun value hvalue => .after fun w => ?_
  obtain ⟨m, rfl, hvalue⟩ := hvalue
  split
  · refine (readPresent_gives (hvalue elem header.element) header.rounds).bind fun items hitems => ?_
    refine .pure ?_
    rintro _ ⟨⟩
    exact ⟨m, rfl, hitems.2⟩
  · exact .after fun _ => .pure fun _ h => nomatch h

theorem readEntries_shallow {key value : Ty} (hdescend : DescendsShallow n descend) :
    Gives (readEntries s descend key value) fun o => ∀ entries, o = some entries →
      ∃ m, n = m + 1 ∧ ∀ e ∈ entries, e.1.depth ≤ m ∧ e.2.depth ≤ m := by
  refine hdescend.bind fun read hread => .after fun header => .after fun _ => .after fun _ => ?_
  obtain ⟨m, rfl, hread⟩ := hread
  split
  · have hentry : Gives (do
          let k ← read key header.key
          let v ← read value header.value
          return k.bind fun k => v.map fun v => (k, v)) fun o => ∀ e, o = some e →
        e.1.depth ≤ m ∧ e.2.depth ≤ m := by
      refine (hread key header.key).bind fun k hk => ?_
      refine (hread value header.value).bind fun v hv => .pure ?_
      intro e he
      obtain ⟨k', rfl, hmap⟩ := Option.bind_eq_some_iff.mp he
      obtain ⟨v', rfl, rfl⟩ := Option.map_eq_some_iff.mp hmap
      exact ⟨hk k' rfl, hv v' rfl⟩
    refine (readPresent_gives hentry header.rounds).bind fun entries hentries => .pure ?_
    rintro _ ⟨⟩
    exact ⟨m, rfl, hentries.2⟩
  · exact .after fun _ => .pure fun _ h => nomatch h

theorem readShape_shallow (hdescend : DescendsShallow n descend) (shape : Shape) :
    Gives (readShape s descend shape) fun o => ∀ v, o = some v → v.depth ≤ n := by
  cases shape with
  | prim p =>
    refine .map some (Gives.adapt _ ((readPrimitive_gives p).mono fun v hv => ?_))
    rintro _ ⟨⟩
    exact hv.1.depth_le n
  | enum d =>
    refine .map some (Gives.adapt _ (.after fun code => ?_))
    split <;> exact .pure fun v hv => by cases hv; exact Nat.zero_le n
  | struct d =>
    refine hdescend.bind fun value hvalue => ?_
    obtain ⟨m, rfl, hvalue⟩ := hvalue
    refine (readFieldsOf_shallow hvalue d).bind fun v hv => .pure ?_
    rintro _ ⟨⟩
    exact hv
  | list elem =>
    refine (readItems_shallow hdescend).bind fun o ho => .pure fun v hv => ?_
    obtain ⟨items, rfl, rfl⟩ := Option.map_eq_some_iff.mp hv
    exact Value.depth_list_le.mpr (ho items rfl)
  | set elem =>
    refine (readItems_shallow hdescend).bind fun o ho => .pure fun v hv => ?_
    obtain ⟨items, rfl, rfl⟩ := Option.map_eq_some_iff.mp hv
    obtain ⟨m, rfl, hitems⟩ := ho items rfl
    exact Value.depth_set_le.mpr ⟨m, rfl, fun v hv => hitems v (Value.mem_of_mem_distinct hv)⟩
  | map key value =>
    refine (readEntries_shallow hdescend).bind fun o ho => .pure fun v hv => ?_
    obtain ⟨entries, rfl, rfl⟩ := Option.map_eq_some_iff.mp hv
    exact Value.depth_map_le.mpr (ho entries rfl)

theorem readCoerced_shallow (hdescend : DescendsShallow n descend) :
    GivesShallow n (readCoerced s descend) := by
  intro ty observed
  unfold readCoerced
  split
  · exact .pure fun _ h => nomatch h
  refine .after fun shape => ?_
  split
  · exact readShape_shallow hdescend shape
  split
  · refine .after fun o => .pure fun v hv => ?_
    obtain ⟨t, rfl, hv⟩ := Option.bind_eq_some_iff.mp hv
    exact ofText_depth hv
  split
  · refine .after fun data => .pure fun v hv => ?_
    obtain ⟨t, -, hv⟩ := Option.bind_eq_some_iff.mp hv
    exact ofText_depth hv
  · exact .after fun _ => .pure fun _ h => nomatch h

theorem readWithin_shallow (s : Schema) (depth : Nat) : GivesShallow depth (readWithin s depth) := by
  induction depth with
  | zero => exact readCoerced_shallow (.throw _)
  | succ depth ih => exact readCoerced_shallow (.pure ⟨depth, rfl, ih⟩)

end Depth

/-! ## Decoding -/

/-- Decoding ends, whatever the schema, the type, the announced wire type and the bytes are: in a
value that nests at most 64 deep, in no value, or in a fault of the input or an unknown type. Over a
compiled schema, a type whose names are defined in it fails for the input alone. -/
theorem decode_total (s : Schema) (ty : Ty) (observed : WireType) (input : List UInt8) :
    (match (decode s ty observed input).1 with
      | .ok (some v) => v.depth ≤ 64
      | .ok none => True
      | .error fault => fault.Inbound ∨ ∃ name, fault = .unknownType name) ∧
    (∀ config library root nodes, Compile.compile config library root nodes = .ok s →
      (∀ name ∈ ty.names, s.isDefined name = true) →
      ∀ fault, (decode s ty observed input).1 = .error fault → fault.Inbound) ∧
    LoopsEnd s := by
  have hraises {fault : Fault} (h : (decode s ty observed input).1 = .error fault) :
      OfInput (Known s ty) fault := readWithin_raises s depthLimit ty observed (Prod.ext h rfl)
  refine ⟨?_, fun config library root nodes hcompile hty fault hfault => ?_, loopsEnd s⟩
  · split
    · next v hv => exact readWithin_shallow s depthLimit ty observed (Prod.ext hv rfl) v rfl
    · trivial
    · next fault hfault => exact (hraises hfault).imp_right And.left
  · obtain ⟨_, _, _, hclosed, _⟩ := Compile.compile_closed hcompile
    have hknown : Known s ty := ⟨hclosed.complete, hclosed.resolves_of_isDefined hty⟩
    exact (hraises hfault).resolve_right fun h => h.2 hknown

/-- A set of one tree, under the name of its alias, that ends within the tree. -/
theorem decode_total_forest :
    (decode Compile.treeSchema (.named "Forest") .set [12, 0, 0, 0, 1, 15, 0]).1 =
        .error (.wire (.stream .shortItem)) ∧
      (Fault.wire (.stream .shortItem)).Inbound ∧ LoopsEnd Compile.treeSchema :=
  have h : (decode Compile.treeSchema (.named "Forest") .set [12, 0, 0, 0, 1, 15, 0]).1 =
      .error (.wire (.stream .shortItem)) := rfl
  have htotal := decode_total Compile.treeSchema (.named "Forest") .set [12, 0, 0, 0, 1, 15, 0]
  ⟨h, htotal.2.1 _ _ _ _ Compile.compile_tree (by decide) _ h, htotal.2.2⟩

end ThriftRpc.Codec
