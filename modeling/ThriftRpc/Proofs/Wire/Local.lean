import ThriftRpc.Proofs.Wire.Gives
import ThriftRpc.Wire.Skip

/-!
# Readers that look at what they take

A reader is local if what it does off one input, once it succeeds, is decided by the bytes that it
takes: it reads them alike whatever follows. So a value that is the whole of an input is read in
front of anything. That composes step by step; a walk whose fuel is the length of the input is local
too, since every step of it takes a byte (`LocalAt`).
-/

namespace ThriftRpc.Wire

variable {ε ε' α β : Type}

/-- A success takes some bytes off the front, and these are read alike in front of anything. -/
def Local (r : ExceptT ε (StateM (List UInt8)) α) : Prop :=
  ∀ ⦃input a left⦄, r input = (.ok a, left) → ∃ taken, input = taken ++ left ∧ Reads r taken a

namespace Local

variable {r : ExceptT ε (StateM (List UInt8)) α} {k : α → ExceptT ε (StateM (List UInt8)) β}
  {P : α → Prop}

theorem reads_front (h : Local r) {bytes rest : List UInt8} {a : α}
    (hr : r (bytes ++ rest) = (.ok a, rest)) : Reads r bytes a := by
  obtain ⟨taken, hsplit, hreads⟩ := h hr
  exact List.append_cancel_right hsplit ▸ hreads

theorem reads_whole (h : Local r) {bytes : List UInt8} {a : α} (hr : r bytes = (.ok a, [])) :
    Reads r bytes a :=
  h.reads_front (by rwa [List.append_nil])

theorem length_le (h : Local r) {input left : List UInt8} {a : α} (hr : r input = (.ok a, left)) :
    left.length ≤ input.length := by
  obtain ⟨taken, rfl, -⟩ := h hr
  simp

/-- A reader that finds nothing in an empty input takes at least a byte. -/
theorem length_lt (h : Local r) (hempty : ∀ a left, r [] ≠ (.ok a, left)) {input left : List UInt8}
    {a : α} (hr : r input = (.ok a, left)) : left.length < input.length := by
  obtain ⟨taken, rfl, hreads⟩ := h hr
  have hpos : 0 < taken.length := by
    refine List.length_pos_iff.mpr ?_
    rintro rfl
    exact hempty a [] (hreads [])
  rw [List.length_append]
  omega

theorem pure (a : α) : Local (Pure.pure a : ExceptT ε (StateM (List UInt8)) α) := by
  intro input b left h
  cases h
  exact ⟨[], rfl, Reads.pure a⟩

theorem throw (e : ε) : Local (throw e : ExceptT ε (StateM (List UInt8)) α) := by
  intro input a left h
  cases h

theorem bind_gives (h : Local r) (hP : Gives r P) (hk : ∀ a, P a → Local (k a)) :
    Local (r >>= k) := by
  intro input b left hrun
  obtain ⟨a, mid, hr, hrest⟩ := run_bind_eq_ok hrun
  obtain ⟨first, rfl, hfirst⟩ := h hr
  obtain ⟨second, rfl, hsecond⟩ := hk a (hP hr) hrest
  exact ⟨first ++ second, (List.append_assoc _ _ _).symm, hfirst.bind hsecond⟩

theorem bind (h : Local r) (hk : ∀ a, Local (k a)) : Local (r >>= k) :=
  h.bind_gives (.of_forall (P := fun _ => True) fun _ => trivial) fun a _ => hk a

theorem map (f : α → β) (h : Local r) : Local (f <$> r) := by
  rw [map_eq_pure_bind]
  exact h.bind fun a => pure (f a)

theorem discard (h : Local r) : Local (discard r) := h.map _

theorem adapt (f : ε → ε') (h : Local r) : Local (ExceptT.adapt f r) := by
  intro input a left hrun
  obtain ⟨taken, rfl, hreads⟩ := h (run_adapt_eq_ok hrun)
  exact ⟨taken, rfl, hreads.adapt f⟩

end Local

/-- With this much fuel a success takes some bytes off the front, and these are read alike in front
of anything, with any fuel that is no less than their count. -/
def LocalAt (r : Nat → ExceptT ε (StateM (List UInt8)) α) (fuel : Nat) : Prop :=
  ∀ ⦃input a left⦄, r fuel input = (.ok a, left) →
    ∃ taken, input = taken ++ left ∧ ∀ more, taken.length ≤ more → Reads (r more) taken a

namespace LocalAt

variable {fuel : Nat}

theorem of_local {r : ExceptT ε (StateM (List UInt8)) α} (h : Local r) :
    LocalAt (fun _ => r) fuel := by
  intro input a left hrun
  obtain ⟨taken, rfl, hreads⟩ := h hrun
  exact ⟨taken, rfl, fun _ _ => hreads⟩

theorem bind {r : ExceptT ε (StateM (List UInt8)) α}
    {k : α → Nat → ExceptT ε (StateM (List UInt8)) β} (h : Local r)
    (hk : ∀ a, LocalAt (k a) fuel) : LocalAt (fun fuel => r >>= fun a => k a fuel) fuel := by
  intro input b left hrun
  obtain ⟨a, mid, hr, hrest⟩ := run_bind_eq_ok hrun
  obtain ⟨first, rfl, hfirst⟩ := h hr
  obtain ⟨second, rfl, hsecond⟩ := hk a hrest
  refine ⟨first ++ second, (List.append_assoc _ _ _).symm, fun more hmore => ?_⟩
  rw [List.length_append] at hmore
  exact hfirst.bind (hsecond more (by omega))

theorem andThen {r : Nat → ExceptT ε (StateM (List UInt8)) α} (h : LocalAt r fuel) (f : α → β) :
    LocalAt (fun fuel => r fuel >>= fun a => pure (f a)) fuel := by
  intro input b left hrun
  obtain ⟨a, mid, hr, hpure⟩ := run_bind_eq_ok hrun
  cases hpure
  obtain ⟨taken, rfl, hreads⟩ := h hr
  exact ⟨taken, rfl, fun more hmore => (hreads more hmore).andThen (Reads.pure _)⟩

/-- A step that takes at least a byte uses up one of the fuel. -/
theorem succ {r : Nat → ExceptT ε (StateM (List UInt8)) β}
    {head : ExceptT ε (StateM (List UInt8)) α} {k : α → Nat → ExceptT ε (StateM (List UInt8)) β}
    (hr : ∀ n, r (n + 1) = head >>= fun a => k a n) (hhead : Local head)
    (hempty : ∀ a left, head [] ≠ (.ok a, left)) (hk : ∀ a, LocalAt (k a) fuel) :
    LocalAt r (fuel + 1) := by
  intro input b left hrun
  rw [hr] at hrun
  obtain ⟨a, mid, ha, hrest⟩ := run_bind_eq_ok hrun
  obtain ⟨first, rfl, hfirst⟩ := hhead ha
  obtain ⟨second, rfl, hsecond⟩ := hk a hrest
  have hpos : 0 < first.length := by
    refine List.length_pos_iff.mpr ?_
    rintro rfl
    exact hempty a [] (hfirst [])
  -- The step has taken a byte for the fuel it used, so the rest is still covered.
  refine ⟨first ++ second, (List.append_assoc _ _ _).symm, fun more hmore => ?_⟩
  rw [List.length_append] at hmore
  obtain ⟨n, rfl⟩ : ∃ n, more = n + 1 := ⟨more - 1, by omega⟩
  rw [hr]
  exact hfirst.bind (hsecond n (by omega))

/-- More fuel than the input has bytes is enough. -/
theorem ofLength {r : Nat → ExceptT ε (StateM (List UInt8)) α} (h : ∀ fuel, LocalAt r fuel) :
    Local (do let rest ← get; r (rest.length + 1)) := by
  intro input a left hrun
  obtain ⟨taken, rfl, hreads⟩ := h _ hrun
  refine ⟨taken, rfl, fun rest => hreads _ ?_ rest⟩
  rw [List.length_append]
  omega

end LocalAt

/-! ## Primitives -/

namespace Reader

theorem bytes_local (n : Nat) (short : StreamFault) : Local (bytes n short) := by
  intro input data left h
  obtain ⟨rfl, rfl⟩ := bytes_eq_ok h
  exact ⟨data, rfl, reads_bytes data short⟩

theorem unsigned_local (width : Nat) : Local (unsigned width) :=
  (bytes_local _ _).bind fun _ => .pure _

theorem uint8_local : Local uint8 := (unsigned_local 1).bind fun _ => .pure _
theorem bool_local : Local bool := uint8_local.bind fun _ => .pure _
theorem byte_local : Local byte := uint8_local.bind fun _ => .pure _
theorem i16_local : Local i16 := (unsigned_local 2).bind fun _ => .pure _
theorem i32_local : Local i32 := (unsigned_local 4).bind fun _ => .pure _
theorem i64_local : Local i64 := (unsigned_local 8).bind fun _ => .pure _
theorem double_local : Local double := (unsigned_local 8).bind fun _ => .pure _

theorem size_local : Local size := by
  refine i32_local.bind fun n => ?_
  split
  · exact .throw _
  · exact .pure n

theorem binary_local : Local binary := size_local.bind fun _ => bytes_local _ _

theorem string_local : Local string := by
  refine binary_local.bind fun data => ?_
  unfold text
  split
  · exact .pure _
  · exact .throw _

theorem wireType_local : Local wireType := by
  refine uint8_local.bind fun code => ?_
  split
  · exact .pure _
  · exact .throw _

theorem fieldHeader_local : Local fieldHeader := by
  refine wireType_local.bind fun w => ?_
  split
  · exact .pure _
  · exact i16_local.bind fun _ => .pure _

theorem fieldHeader_length_lt {input left : List UInt8} {header : FieldHeader}
    (h : fieldHeader input = (.ok header, left)) : left.length < input.length :=
  fieldHeader_local.length_lt (fun _ _ hr => nomatch hr) h

theorem listHeader_local : Local listHeader :=
  wireType_local.bind fun _ => size_local.bind fun _ => .pure _

theorem mapHeader_local : Local mapHeader :=
  wireType_local.bind fun _ => wireType_local.bind fun _ => size_local.bind fun _ => .pure _

theorem skipFields_local {skip : WireType → Reader Unit} (h : ∀ w, Local (skip w)) (fuel : Nat) :
    LocalAt (skipFields skip) fuel := by
  induction fuel with
  | zero =>
    intro input a left hrun
    cases hrun
  | succ fuel ih =>
    refine .succ (fun _ => rfl) fieldHeader_local (fun _ _ h => nomatch h) fun header => ?_
    by_cases hstop : header.wireType = .stop
    · simp only [if_pos hstop]
      exact .of_local (.pure ())
    · simp only [if_neg hstop]
      exact .bind (h header.wireType) fun _ => ih

theorem replicate_local {read : Reader Unit} (h : Local read) (n : Nat) :
    Local (replicate n read) := by
  induction n with
  | zero => exact .pure ()
  | succ n ih => exact h.bind fun _ => ih

theorem skipWithin_local (depth : Nat) (w : WireType) : Local (skipWithin depth w) := by
  induction depth generalizing w with
  | zero => exact .throw _
  | succ depth ih =>
    cases w with
    | stop | void => exact .pure ()
    | bool => exact bool_local.discard
    | byte => exact byte_local.discard
    | i16 => exact i16_local.discard
    | i32 => exact i32_local.discard
    | i64 => exact i64_local.discard
    | double => exact double_local.discard
    | string => exact binary_local.discard
    | struct => exact LocalAt.ofLength fun fuel => skipFields_local ih fuel
    | list | set => exact listHeader_local.bind fun header => replicate_local (ih _) _
    | map =>
      exact mapHeader_local.bind fun header => replicate_local ((ih _).bind fun _ => ih _) _

end Reader

end ThriftRpc.Wire
