import ThriftRpc.Proofs.Wire.Transfer
import ThriftRpc.Wire.Writer

/-!
# What a reader gives

`Gives r P`: whatever `r` gives off any input satisfies `P`. A reader that fails gives nothing, so
no input has to be well formed. It composes step by step, as `Reads` does, and a length read off the
wire is one that could be written (`size_gives`).
-/

namespace ThriftRpc.Wire

variable {ε ε' α β : Type}

/-- Whatever the reader gives satisfies `P`. -/
def Gives (r : ExceptT ε (StateM (List UInt8)) α) (P : α → Prop) : Prop :=
  ∀ ⦃input a left⦄, r input = (.ok a, left) → P a

namespace Gives

variable {r : ExceptT ε (StateM (List UInt8)) α} {k : α → ExceptT ε (StateM (List UInt8)) β}
  {P : α → Prop} {Q : β → Prop}

theorem of_forall (h : ∀ a, P a) : Gives r P := fun _ a _ _ => h a

theorem pure {a : α} (h : P a) : Gives (Pure.pure a : ExceptT ε (StateM (List UInt8)) α) P := by
  intro input b left hr
  cases hr
  exact h

theorem throw (e : ε) : Gives (throw e : ExceptT ε (StateM (List UInt8)) α) P := by
  intro input b left hr
  cases hr

theorem bind (h : Gives r P) (hk : ∀ a, P a → Gives (k a) Q) : Gives (r >>= k) Q := by
  intro input b left hr
  obtain ⟨a, mid, ha, hb⟩ := run_bind_eq_ok hr
  exact hk a (h ha) hb

/-- Nothing is known of what the first step gives. -/
theorem after (hk : ∀ a, Gives (k a) Q) : Gives (r >>= k) Q :=
  (of_forall (P := fun _ => True) fun _ => trivial).bind fun a _ => hk a

theorem mono {P' : α → Prop} (h : Gives r P) (himp : ∀ a, P a → P' a) : Gives r P' :=
  fun _ a _ hr => himp a (h hr)

theorem map (f : α → β) (h : Gives r fun a => Q (f a)) : Gives (f <$> r) Q := by
  rw [map_eq_pure_bind]
  exact h.bind fun a ha => pure ha

theorem adapt (f : ε → ε') (h : Gives r P) : Gives (ExceptT.adapt f r) P :=
  fun _ _ _ hr => h (run_adapt_eq_ok hr)

end Gives

namespace Reader

theorem bytes_gives (n : Nat) (short : StreamFault) :
    Gives (bytes n short) fun data => data.length = n :=
  fun _ _ _ h => (bytes_eq_ok h).2

theorem toNat_le_maxSize (n : Int32) : n.toInt.toNat ≤ Writer.maxSize := by
  have h := n.toInt_lt
  unfold Writer.maxSize
  omega

theorem binary_gives : Gives binary fun data => data.length ≤ Writer.maxSize := by
  refine .after fun n => (bytes_gives _ _).mono fun data hdata => ?_
  rw [hdata]
  exact toNat_le_maxSize n

theorem string_gives : Gives string fun text =>
    (Text.Utf8.encode text).length ≤ Writer.maxSize := by
  refine binary_gives.bind fun data hdata => ?_
  unfold text
  cases htext : Text.Utf8.decode data with
  | ok t => exact .pure (Text.Utf8.decode_eq_ok_iff.mp htext ▸ hdata)
  | error fault => exact .throw _

end Reader

theorem rounds_le_maxSize (vacant : Bool) (n : Int32) : rounds vacant n ≤ Writer.maxSize := by
  have h := Reader.toNat_le_maxSize n
  unfold rounds
  split
  · omega
  · exact h

end ThriftRpc.Wire
