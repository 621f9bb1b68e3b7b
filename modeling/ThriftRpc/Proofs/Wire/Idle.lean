import ThriftRpc.Proofs.Wire.Transfer
import ThriftRpc.Wire.Skip

/-!
# Elements without bytes

Reading what has no bytes leaves the input alone, so one round of a loop over such elements stands
for all of them (`rounds_eq`).
-/

namespace ThriftRpc.Wire

/-- The reader leaves any input alone and gives `a`, or always fails alike. -/
def Idle {ε α : Type} (r : ExceptT ε (StateM (List UInt8)) α) (a : α) : Prop :=
  (∀ input, r input = (.ok a, input)) ∨ ∃ e, ∀ input, r input = (.error e, input)

theorem Idle.bind {ε α β : Type} {r : ExceptT ε (StateM (List UInt8)) α} {a : α}
    {k : α → ExceptT ε (StateM (List UInt8)) β} {b : β} (h : Idle r a) (hk : Idle (k a) b) :
    Idle (r >>= k) b := by
  rcases h with h | ⟨e, h⟩
  · rcases hk with hk | ⟨e, hk⟩
    · exact .inl fun input => (run_bind_ok (h input)).trans (hk input)
    · exact .inr ⟨e, fun input => (run_bind_ok (h input)).trans (hk input)⟩
  · exact .inr ⟨e, fun input => run_bind_error (h input)⟩

/-- What is the same after one round and after more may be cut to one round. -/
theorem rounds_eq {β : Type} {vacant : Bool} (f : Nat → β)
    (h : vacant = true → ∀ n, f (n + 1) = f 1) (size : Int32) :
    f (rounds vacant size) = f size.toInt.toNat := by
  unfold rounds
  split
  · next hvacant =>
    cases size.toInt.toNat with
    | zero => rfl
    | succ n =>
      rw [Nat.min_eq_right (Nat.succ_le_succ (Nat.zero_le n))]
      exact (h hvacant n).symm
  · rfl

namespace Reader

theorem replicate_idle {read : Reader Unit} (h : Idle read ()) (n : Nat) :
    replicate (n + 1) read = replicate 1 read := by
  induction n with
  | zero => rfl
  | succ n ih =>
    funext input
    show (read >>= fun _ => replicate (n + 1) read) input = _
    rw [ih]
    rcases h with h | ⟨e, h⟩
    · exact run_bind_ok (h input)
    · exact (run_bind_error (h input)).trans (run_bind_error (h input)).symm

theorem skipWithin_idle {w : WireType} (h : w.isVacant = true) (depth : Nat) :
    Idle (skipWithin depth w) () := by
  cases depth with
  | zero => exact .inr ⟨.depthLimit, fun _ => rfl⟩
  | succ depth =>
    cases w with
    | stop | void => exact .inl fun _ => rfl
    | _ => cases h

/-- The rounds for a list are as good as one for each of its elements. -/
theorem replicate_listRounds (depth : Nat) (header : ListHeader) :
    replicate header.rounds (skipWithin depth header.element) =
      replicate header.size.toInt.toNat (skipWithin depth header.element) :=
  rounds_eq (replicate · (skipWithin depth header.element))
    (fun hvacant => replicate_idle (skipWithin_idle hvacant depth)) header.size

theorem replicate_mapRounds (depth : Nat) (header : MapHeader) :
    let skipEntry := do
      skipWithin depth header.key
      skipWithin depth header.value
    replicate header.rounds skipEntry = replicate header.size.toInt.toNat skipEntry :=
  rounds_eq (replicate · _)
    (fun hvacant => by
      rw [Bool.and_eq_true] at hvacant
      exact replicate_idle ((skipWithin_idle hvacant.1 depth).bind
        (skipWithin_idle hvacant.2 depth))) header.size

end Reader

end ThriftRpc.Wire
