import ThriftRpc.Proofs.Codec.RoundTrip
import ThriftRpc.Proofs.Wire.Covered

/-!
# Reading beside skipping

Whatever is read as a value, of any type, is skipped too by its wire type, with depth enough left, and
leaves the same rest (`readWithin_covered`): both walk the input in step, over the same headers and as
many rounds. So who reads a value and who skips it stop at the same place, on any bytes, as long as
neither fails (`decode_beside_skip`).
-/

namespace ThriftRpc.Codec

open Wire

variable {s : Schema} {ty : Ty} {m : Nat}

theorem exists_level (hm : Reader.skipLimit ≤ m) : ∃ k, m = k + 1 := by
  unfold Reader.skipLimit at hm
  exact ⟨m - 1, by omega⟩

/-- Bytes are taken whole before they are looked at as a text. -/
theorem string_covered : Covered Reader.string Reader.binary := by
  refine (Covered.refl Reader.binary).andThen fun bytes => ?_
  unfold Reader.text
  split
  · exact .pure _ ()
  · exact .throw _

theorem readPrimitive_covered (p : Primitive) (m : Nat) :
    Covered (readPrimitive p) (Reader.skipWithin (m + 1) p.wireType) := by
  cases p with
  | string => exact (string_covered.map Value.string).discard
  | _ => exact ((Covered.refl _).map _).discard

theorem readEnum_covered (d : EnumDef) (m : Nat) :
    Covered (readEnum d) (Reader.skipWithin (m + 1) .i32) := by
  refine Covered.discard ((Covered.refl Reader.i32).andThen fun code => ?_)
  split
  · exact .pure _ ()
  · exact .pure _ ()

theorem readAsText_covered (w : WireType) (hm : Reader.skipLimit ≤ m) :
    Covered (readAsText w) (Reader.skipWithin m w) := by
  have other (w : WireType) : Covered (do Reader.skip w; return none : Reader (Option String))
      (Reader.skipWithin m w) := (Reader.skipWithin_covered hm w).andThen fun _ => .pure _ ()
  obtain ⟨m, rfl⟩ := exists_level hm
  cases w with
  | bool | byte | i16 | i32 | i64 | double =>
    exact .discard ((Covered.refl _).andThen fun _ => .pure _ ())
  | _ => exact other _

section Nested

variable {value : ValueReader} {n : Nat}

/-- Whatever type is asked for, what the reader of values takes is skipped with so much depth, and as
much as values that are not read take. -/
def BesideSkip (n : Nat) (value : ValueReader) : Prop :=
  ∀ ty w m, Reader.skipLimit + n ≤ m → Covered (value ty w) (Reader.skipWithin m w)

theorem readFields_covered (h : BesideSkip n value) (hm : Reader.skipLimit + n ≤ m) (d : StructDef)
    (fuel : Nat) (done : Table String Value) :
    Covered (readFields d value fuel done) (Reader.skipFields (Reader.skipWithin m) fuel) := by
  induction fuel generalizing done with
  | zero => exact .throw _
  | succ fuel ih =>
    refine .bind_same run_adapt_eq_ok fun header => ?_
    by_cases hstop : header.wireType = .stop
    · simp only [if_pos hstop]
      exact .pure _ ()
    · simp only [if_neg hstop]
      cases hf : d.field? header.index with
      | none =>
        have hskip : Reader.skipLimit ≤ m := by omega
        exact ((Reader.skipWithin_covered hskip header.wireType).adapt _).bind fun _ _ => ih done
      | some f =>
        refine (h f.type header.wireType m hm).bind fun v _ => ?_
        cases v with
        | none => exact ih done
        | some v => exact ih (done.insert f.name v)

theorem readFieldsOf_covered (h : BesideSkip n value) (hm : Reader.skipLimit + n ≤ m)
    (d : StructDef) : Covered (readFieldsOf d value) (Reader.skipWithin (m + 1) .struct) := by
  refine .bind_same (fun hget => by cases hget; rfl) fun rest => ?_
  exact (readFields_covered h hm d (rest.length + 1) []).andThen fun _ => .pure _ ()

theorem readPresent_covered {α : Type} {read : Reading (Option α)} {skip : Reader Unit}
    (h : Covered read skip) (n : Nat) :
    Covered (readPresent n read) (Reader.replicate n skip) := by
  induction n with
  | zero => exact .pure _ ()
  | succ n ih => exact h.bind fun _ _ => ih.andThen fun _ => .pure _ ()

/-- A step that reads nothing. -/
theorem lift_covered {α β γ : Type} {e : Except Fault α} {f : α → Reading β} {k : Reader γ}
    (h : ∀ a, e = .ok a → Covered (f a) k) : Covered ((e : Reading α) >>= f) k := by
  cases e with
  | error fault => exact .throw fault
  | ok a => exact h a rfl

variable {descend : Reading ValueReader}

/-- To descend reads nothing and takes a level. -/
def Descends (n : Nat) (descend : Reading ValueReader) : Prop :=
  ∀ ⦃input value left⦄, descend input = (.ok value, left) →
    left = input ∧ ∃ k, n = k + 1 ∧ BesideSkip k value

theorem Descends.covered {α β : Type} {f : ValueReader → Reading α} {r : Reader β}
    (hd : Descends n descend)
    (h : ∀ k value, n = k + 1 → BesideSkip k value → Covered (f value) r) :
    Covered (descend >>= f) r := by
  intro input a left hr
  obtain ⟨value, mid, hvalue, hrest⟩ := run_bind_eq_ok hr
  obtain ⟨rfl, k, hk, hbeside⟩ := hd hvalue
  exact h k value hk hbeside hrest

theorem readItems_covered (hd : Descends n descend) (hm : Reader.skipLimit + n ≤ m + 1) (elem : Ty) :
    Covered (readItems s descend elem) (Reader.skipWithin (m + 1) .list) := by
  refine .bind_same run_adapt_eq_ok fun header => hd.covered ?_
  rintro k value rfl hvalue
  have hk : Reader.skipLimit + k ≤ m := by omega
  refine lift_covered fun w _ => ?_
  split
  · exact (readPresent_covered (hvalue elem header.element m hk) _).andThen fun _ => .pure _ ()
  · have hskip := Reader.skipWithin_covered (n := Reader.skipLimit) (m := m) (by omega) header.element
    exact ((Reader.replicate_covered hskip _).adapt _).andThen fun _ => .pure _ ()

theorem readEntries_covered (hd : Descends n descend) (hm : Reader.skipLimit + n ≤ m + 1)
    (key value : Ty) :
    Covered (readEntries s descend key value) (Reader.skipWithin (m + 1) .map) := by
  refine hd.covered ?_
  rintro k read rfl hread
  have hk : Reader.skipLimit + k ≤ m := by omega
  refine .bind_same run_adapt_eq_ok fun header => ?_
  refine lift_covered fun keyWire _ => lift_covered fun valueWire _ => ?_
  split
  · refine (readPresent_covered ?_ _).andThen fun _ => .pure _ ()
    refine (hread key header.key m hk).bind fun _ _ => ?_
    exact (hread value header.value m hk).andThen fun _ => .pure _ ()
  · have hskip (w : WireType) := Reader.skipWithin_covered (n := Reader.skipLimit) (m := m) (by omega) w
    refine ((Reader.replicate_covered ?_ _).adapt _).andThen fun _ => .pure _ ()
    exact (hskip header.key).bind fun _ _ => hskip header.value

/-! ## Values -/

theorem readShape_covered (hd : Descends n descend) (hm : Reader.skipLimit + n ≤ m) (shape : Shape) :
    Covered (readShape s descend shape) (Reader.skipWithin m shape.wireType) := by
  obtain ⟨m, rfl⟩ := exists_level (Nat.le_trans (Nat.le_add_right _ n) hm)
  cases shape with
  | prim p => exact ((readPrimitive_covered p m).adapt _).map some
  | enum d => exact ((readEnum_covered d m).adapt _).map some
  | struct d =>
    refine hd.covered ?_
    rintro k value rfl hvalue
    exact (readFieldsOf_covered hvalue (by omega) d).andThen fun _ => .pure _ ()
  | list elem => exact (readItems_covered hd hm elem).andThen fun _ => .pure _ ()
  | set elem => exact (readItems_covered hd hm elem).andThen fun _ => .pure _ ()
  | map key value => exact (readEntries_covered hd hm key value).andThen fun _ => .pure _ ()

theorem readCoerced_covered (hd : Descends n descend) : BesideSkip n (readCoerced s descend) := by
  intro ty w m hm
  have hlimit : Reader.skipLimit ≤ m := by omega
  unfold readCoerced
  by_cases hstop : w = .stop
  · subst hstop
    obtain ⟨m, rfl⟩ := exists_level hlimit
    exact .pure _ ()
  rw [if_neg hstop]
  refine lift_covered fun shape hshape => ?_
  by_cases hw : shape.wireType = w
  · subst hw
    rw [if_pos rfl]
    exact readShape_covered hd hm shape
  rw [if_neg hw]
  split
  · exact ((readAsText_covered w hlimit).adapt _).andThen fun _ => .pure _ ()
  split
  · next hstring =>
    subst hstring
    obtain ⟨m, rfl⟩ := exists_level hlimit
    exact .andThen (.discard ((Covered.refl Reader.binary).adapt _)) fun _ => .pure _ ()
  · exact ((Reader.skipWithin_covered hlimit w).adapt _).andThen fun _ => .pure _ ()

theorem readWithin_covered (s : Schema) (n : Nat) : BesideSkip n (readWithin s n) := by
  induction n with
  | zero =>
    refine readCoerced_covered ?_
    intro input value left h
    cases h
  | succ n ih =>
    refine readCoerced_covered ?_
    intro input value left h
    cases h
    exact ⟨rfl, n, rfl, ih⟩

end Nested

theorem readWithin_abreast (n : Nat) (ty : Ty) (w : WireType) (m : Nat) :
    Abreast (readWithin s n ty w) (Reader.skipWithin m w) :=
  (readWithin_covered s n ty w _ (Nat.le_max_left _ m)).abreast
    (Reader.skipWithin_covered (Nat.le_max_right _ m) w)

/-- What is read as a struct is one struct on the wire. -/
theorem readStruct_covered (s : Schema) (d : StructDef) :
    Covered (readStruct s d) (Reader.skipWithin (Reader.skipLimit + depthLimit) .struct) :=
  readFieldsOf_covered (readWithin_covered s (depthLimit - 1)) (Nat.le_refl _) d

/-- Where reading a value and skipping it both succeed on the same bytes, they leave the same bytes,
whatever the schema, the type that is asked for and the wire type that is announced. -/
theorem decode_beside_skip {w : WireType} {input : List UInt8}
    (hdecode : (decode s ty w input).1.isOk = true)
    (hskip : (Reader.skip w input).1.isOk = true) :
    (decode s ty w input).2 = (Reader.skip w input).2 := by
  have habreast := readWithin_abreast (s := s) depthLimit ty w Reader.skipLimit
  obtain ⟨v, hv⟩ := exists_eq_ok hdecode
  obtain ⟨u, hu⟩ := exists_eq_ok hskip
  exact habreast (Prod.ext hv rfl) (Prod.ext hu rfl)

/-- A point whose first field holds texts, of which one is no number, and whose second field is an
unknown map. -/
def foreignPoint : List UInt8 :=
  [15, 0, 1, 11, 0, 0, 0, 2, 0, 0, 0, 1, 55, 0, 0, 0, 1, 120,
    13, 0, 9, 3, 2, 0, 0, 0, 1, 5, 1,
    0]

theorem decode_beside_skip_foreignPoint :
    let input := foreignPoint ++ [170]
    (decode pointSchema (.named "Point") .struct input).1.isOk = true ∧
      (Reader.skip .struct input).1.isOk = true ∧
      (decode pointSchema (.named "Point") .struct input).2 = (Reader.skip .struct input).2 := by
  have hdecode : (decode pointSchema (.named "Point") .struct (foreignPoint ++ [170])).1.isOk =
      true := by decide +kernel
  have hskip : (Reader.skip .struct (foreignPoint ++ [170])).1.isOk = true := by decide +kernel
  exact ⟨hdecode, hskip, decode_beside_skip hdecode hskip⟩

end ThriftRpc.Codec
