import ThriftRpc.Proofs.Wire.Gives
import ThriftRpc.Wire.Skip

/-!
# How readers and writers fail

`Raises r E`: whatever fault `r` ends in, from any state, satisfies `E`. It composes step by step, as
`Gives` does for answers. A reader fails only because of its input (`Fault.Inbound`): that ends too
early, is malformed, or nests too deep. A writer fails for want of room or for what it is to write
(`Fault.Outbound`).
-/

namespace ThriftRpc.Wire

variable {ε ε' σ α β : Type}

/-- Whatever fault the action ends in satisfies `E`. -/
def Raises (r : ExceptT ε (StateM σ) α) (E : ε → Prop) : Prop :=
  ∀ ⦃s e s'⦄, r s = (.error e, s') → E e

namespace Raises

variable {r : ExceptT ε (StateM σ) α} {k : α → ExceptT ε (StateM σ) β} {E : ε → Prop}

theorem pure (a : α) : Raises (Pure.pure a : ExceptT ε (StateM σ) α) E := by
  intro input e left hr
  cases hr

theorem throw {e : ε} (h : E e) : Raises (throw e : ExceptT ε (StateM σ) α) E := by
  intro input e' left hr
  cases hr
  exact h

theorem get : Raises (MonadState.get : ExceptT ε (StateM σ) σ) E := by
  intro input e left hr
  cases hr

theorem set (s : σ) : Raises (MonadState.set s : ExceptT ε (StateM σ) PUnit) E := by
  intro s e s' hr
  cases hr

theorem bind (h : Raises r E) (hk : ∀ a, Raises (k a) E) : Raises (r >>= k) E := by
  intro s e s' hrun
  rw [run_bind] at hrun
  split at hrun
  · next a mid hr => exact hk a hrun
  · next fault mid hr =>
    cases hrun
    exact h hr

theorem bind_gives {r : ExceptT ε (StateM (List UInt8)) α}
    {k : α → ExceptT ε (StateM (List UInt8)) β} {P : α → Prop} (h : Raises r E) (hP : Gives r P)
    (hk : ∀ a, P a → Raises (k a) E) : Raises (r >>= k) E := by
  intro input e left hrun
  rw [run_bind] at hrun
  split at hrun
  · next a mid hr => exact hk a (hP hr) hrun
  · next fault mid hr =>
    cases hrun
    exact h hr

theorem map (f : α → β) (h : Raises r E) : Raises (f <$> r) E := by
  rw [map_eq_pure_bind]
  exact h.bind fun a => pure (f a)

theorem mono {E' : ε → Prop} (h : Raises r E) (himp : ∀ e, E e → E' e) : Raises r E' :=
  fun _ e _ hr => himp e (h hr)

theorem adapt {E : ε' → Prop} (f : ε → ε') (h : Raises r fun e => E (f e)) :
    Raises (ExceptT.adapt f r) E := by
  intro input e left hrun
  rw [run_adapt] at hrun
  generalize hr : r input = p at hrun
  obtain ⟨answer, rest⟩ := p
  cases answer with
  | ok a => cases hrun
  | error fault =>
    cases hrun
    exact h hr

theorem liftExcept {answer : Except ε α} (h : ∀ e, answer = .error e → E e) :
    Raises (liftExcept answer : ExceptT ε (StateM σ) α) E := by
  cases answer with
  | error e => exact .throw (h e rfl)
  | ok a => exact .pure a

theorem forM {as : List α} {step : α → ExceptT ε (StateM σ) PUnit}
    (h : ∀ a ∈ as, Raises (step a) E) : Raises (as.forM step) E := by
  induction as with
  | nil => exact .pure _
  | cons a as ih =>
    rw [List.forall_mem_cons] at h
    exact h.1.bind fun _ => ih h.2

end Raises

/-- The input ends too early, is malformed, or nests too deep. -/
def Fault.Inbound : Fault → Prop
  | stream .shortItem | stream .shortBytes | malformed _ | depthLimit => True
  | _ => False

/-- There is no more room, or the item is too long for its header. -/
def Fault.Outbound : Fault → Prop
  | stream .full | malformed _ => True
  | _ => False

theorem Fault.Outbound.isEnd {fault : Fault} (h : fault.Outbound) : fault.isEnd = false := by
  cases fault with
  | stream cause => cases cause <;> first | rfl | cases h
  | closed => cases h
  | malformed cause => rfl
  | depthLimit => cases h

namespace Reader

/-! ## Primitives -/

theorem bytes_raises (n : Nat) (short : StreamFault) (h : (Fault.stream short).Inbound) :
    Raises (bytes n short) Fault.Inbound := by
  refine Raises.get.bind fun input => ?_
  split
  · exact (Raises.set _).bind fun _ => .pure _
  · exact (Raises.set _).bind fun _ => .throw h

theorem unsigned_raises (width : Nat) : Raises (unsigned width) Fault.Inbound :=
  (bytes_raises width .shortItem trivial).bind fun _ => .pure _

theorem uint8_raises : Raises uint8 Fault.Inbound := (unsigned_raises 1).bind fun _ => .pure _
theorem bool_raises : Raises bool Fault.Inbound := uint8_raises.bind fun _ => .pure _
theorem byte_raises : Raises byte Fault.Inbound := uint8_raises.bind fun _ => .pure _
theorem i16_raises : Raises i16 Fault.Inbound := (unsigned_raises 2).bind fun _ => .pure _
theorem i32_raises : Raises i32 Fault.Inbound := (unsigned_raises 4).bind fun _ => .pure _
theorem i64_raises : Raises i64 Fault.Inbound := (unsigned_raises 8).bind fun _ => .pure _
theorem double_raises : Raises double Fault.Inbound := (unsigned_raises 8).bind fun _ => .pure _

theorem size_raises : Raises size Fault.Inbound := by
  refine i32_raises.bind fun n => ?_
  split
  · exact .throw trivial
  · exact .pure n

theorem binary_raises : Raises binary Fault.Inbound :=
  size_raises.bind fun _ => bytes_raises _ .shortBytes trivial

theorem text_raises (data : List UInt8) : Raises (text data) Fault.Inbound := by
  unfold text
  split
  · exact .pure _
  · exact .throw trivial

theorem string_raises : Raises string Fault.Inbound :=
  binary_raises.bind fun data => text_raises data

theorem wireType_raises : Raises wireType Fault.Inbound := by
  refine uint8_raises.bind fun code => ?_
  split
  · exact .pure _
  · exact .throw trivial

theorem fieldHeader_raises : Raises fieldHeader Fault.Inbound := by
  refine wireType_raises.bind fun w => ?_
  split
  · exact .pure _
  · exact i16_raises.bind fun _ => .pure _

theorem listHeader_raises : Raises listHeader Fault.Inbound :=
  wireType_raises.bind fun _ => size_raises.bind fun _ => .pure _

theorem mapHeader_raises : Raises mapHeader Fault.Inbound :=
  wireType_raises.bind fun _ => wireType_raises.bind fun _ => size_raises.bind fun _ => .pure _

theorem messageName_raises : Raises messageName Fault.Inbound := by
  refine i32_raises.bind fun first => ?_
  split
  · dsimp only
    split
    · exact (Raises.throw trivial).bind fun _ => string_raises.bind fun _ => .pure _
    · exact string_raises.bind fun _ => .pure _
  · exact (bytes_raises _ .shortBytes trivial).bind fun data =>
      (text_raises data).bind fun _ => uint8_raises.bind fun _ => .pure _

theorem messageHeader_raises : Raises messageHeader Fault.Inbound := by
  refine messageName_raises.bind fun ⟨name, code⟩ => ?_
  dsimp only
  split
  · exact .throw trivial
  · exact i32_raises.bind fun _ => .pure _

theorem skipFields_raises {skip : WireType → Reader Unit} (h : ∀ w, Raises (skip w) Fault.Inbound)
    (fuel : Nat) : Raises (skipFields skip fuel) Fault.Inbound := by
  induction fuel with
  | zero => exact .throw trivial
  | succ fuel ih =>
    refine fieldHeader_raises.bind fun header => ?_
    by_cases hstop : header.wireType = .stop
    · simp only [if_pos hstop]
      exact .pure ()
    · simp only [if_neg hstop]
      exact (h header.wireType).bind fun _ => ih

theorem replicate_raises {read : Reader Unit} (h : Raises read Fault.Inbound) (n : Nat) :
    Raises (replicate n read) Fault.Inbound := by
  induction n with
  | zero => exact .pure ()
  | succ n ih => exact h.bind fun _ => ih

theorem skipWithin_raises (depth : Nat) (w : WireType) :
    Raises (skipWithin depth w) Fault.Inbound := by
  induction depth generalizing w with
  | zero => exact .throw trivial
  | succ depth ih =>
    cases w with
    | stop | void => exact .pure ()
    | bool => exact .map _ bool_raises
    | byte => exact .map _ byte_raises
    | i16 => exact .map _ i16_raises
    | i32 => exact .map _ i32_raises
    | i64 => exact .map _ i64_raises
    | double => exact .map _ double_raises
    | string => exact .map _ binary_raises
    | struct => exact Raises.get.bind fun rest => skipFields_raises ih _
    | list | set => exact listHeader_raises.bind fun header => replicate_raises (ih _) _
    | map =>
      exact mapHeader_raises.bind fun header => replicate_raises ((ih _).bind fun _ => ih _) _

end Reader

/-! ## Writing -/

namespace Writer

theorem bytes_raises (data : List UInt8) : Raises (bytes data) Fault.Outbound := by
  refine Raises.get.bind fun out => ?_
  split
  · exact .set _
  · refine (Raises.set _).bind fun _ => ?_
    split
    · exact .throw trivial
    · exact .pure _

theorem unsigned_raises (width n : Nat) : Raises (unsigned width n) Fault.Outbound :=
  bytes_raises _

theorem uint8_raises (n : UInt8) : Raises (uint8 n) Fault.Outbound := bytes_raises _
theorem i32_raises (n : Int32) : Raises (i32 n) Fault.Outbound := bytes_raises _

theorem binary_raises (data : List UInt8) : Raises (binary data) Fault.Outbound := by
  have hsized : Raises (do i32 (Int32.ofNat data.length); bytes data) Fault.Outbound :=
    (i32_raises _).bind fun _ => bytes_raises data
  unfold binary
  split
  · exact (Raises.throw trivial).bind fun _ => hsized
  · exact hsized

theorem fieldHeader_raises (h : FieldHeader) : Raises (fieldHeader h) Fault.Outbound :=
  (uint8_raises _).bind fun _ => unsigned_raises _ _

theorem listHeader_raises (h : ListHeader) : Raises (listHeader h) Fault.Outbound :=
  (uint8_raises _).bind fun _ => i32_raises _

theorem mapHeader_raises (h : MapHeader) : Raises (mapHeader h) Fault.Outbound :=
  (uint8_raises _).bind fun _ => (uint8_raises _).bind fun _ => i32_raises _

theorem messageHeader_raises (h : MessageHeader) : Raises (messageHeader h) Fault.Outbound :=
  (i32_raises _).bind fun _ => (binary_raises _).bind fun _ => i32_raises _

theorem flush_raises : Raises flush Fault.Outbound := by
  intro out e left hr
  cases hr

end Writer

end ThriftRpc.Wire
