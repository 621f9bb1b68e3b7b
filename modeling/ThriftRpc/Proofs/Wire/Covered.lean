import ThriftRpc.Proofs.Wire.Transfer
import ThriftRpc.Wire.Skip

/-!
# Readers side by side

A reader is covered by another one if that succeeds wherever the first does and stops at the same
place. This composes step by step, so two walks over the same input are compared without a look at the
bytes. Skipping is covered by skipping with more depth left (`skipWithin_covered`), and readers that
are covered alike stop at the same place (`Covered.abreast`).
-/

namespace ThriftRpc.Wire

variable {ε ε' ε'' α β γ δ : Type}

/-- Where the one reader succeeds, so does the other, and leaves the same rest. -/
def Covered (r : ExceptT ε (StateM (List UInt8)) α) (k : ExceptT ε' (StateM (List UInt8)) β) :
    Prop :=
  ∀ ⦃input a left⦄, r input = (.ok a, left) → ∃ b, k input = (.ok b, left)

/-- Where two readers both succeed off the same input, they leave the same rest. -/
def Abreast (r : ExceptT ε (StateM (List UInt8)) α) (k : ExceptT ε' (StateM (List UInt8)) β) :
    Prop :=
  ∀ ⦃input a left b left'⦄, r input = (.ok a, left) → k input = (.ok b, left') → left = left'

namespace Covered

variable {r : ExceptT ε (StateM (List UInt8)) α} {k : ExceptT ε' (StateM (List UInt8)) β}
  {f : α → ExceptT ε (StateM (List UInt8)) γ} {g : β → ExceptT ε' (StateM (List UInt8)) δ}

theorem abreast {l : ExceptT ε'' (StateM (List UInt8)) γ} (hr : Covered r k) (hl : Covered l k) :
    Abreast r l := by
  intro input a left b left' ha hb
  obtain ⟨x, hx⟩ := hr ha
  obtain ⟨y, hy⟩ := hl hb
  exact congrArg Prod.snd (hx.symm.trans hy)

theorem refl (r : ExceptT ε (StateM (List UInt8)) α) : Covered r r := fun _ a _ h => ⟨a, h⟩

theorem pure (a : α) (b : β) :
    Covered (Pure.pure a : ExceptT ε (StateM (List UInt8)) α)
      (Pure.pure b : ExceptT ε' (StateM (List UInt8)) β) := by
  intro input a' left hr
  cases hr
  exact ⟨b, rfl⟩

theorem throw (e : ε) : Covered (throw e : ExceptT ε (StateM (List UInt8)) α) k := by
  intro input a left hr
  cases hr

theorem adapt (e : ε → ε'') (h : Covered r k) : Covered (ExceptT.adapt e r) k :=
  fun _ _ _ hr => h (run_adapt_eq_ok hr)

theorem bind (h : Covered r k) (hfg : ∀ a b, Covered (f a) (g b)) :
    Covered (r >>= f) (k >>= g) := by
  intro input c left hr
  obtain ⟨a, mid, ha, hc⟩ := run_bind_eq_ok hr
  obtain ⟨b, hb⟩ := h ha
  obtain ⟨x, hx⟩ := hfg a b hc
  exact ⟨x, (run_bind_ok hb).trans hx⟩

/-- Two readers that begin alike go on from the same answer. -/
theorem bind_same {k : ExceptT ε' (StateM (List UInt8)) α}
    {g : α → ExceptT ε' (StateM (List UInt8)) δ}
    (hrk : ∀ {input a left}, r input = (.ok a, left) → k input = (.ok a, left))
    (hfg : ∀ a, Covered (f a) (g a)) : Covered (r >>= f) (k >>= g) := by
  intro input c left hr
  obtain ⟨a, mid, ha, hc⟩ := run_bind_eq_ok hr
  obtain ⟨x, hx⟩ := hfg a hc
  exact ⟨x, (run_bind_ok (hrk ha)).trans hx⟩

/-- What a reader does with its answer does not move it. -/
theorem andThen (h : Covered r k)
    (hf : ∀ a, Covered (f a) (Pure.pure () : ExceptT ε' (StateM (List UInt8)) Unit)) :
    Covered (r >>= f) k := by
  intro input c left hr
  obtain ⟨a, mid, ha, hc⟩ := run_bind_eq_ok hr
  obtain ⟨_, hstay⟩ := hf a hc
  cases hstay
  exact h ha

theorem map (h : Covered r k) (f : α → γ) : Covered (f <$> r) k := by
  rw [map_eq_pure_bind]
  exact h.andThen fun a => pure (f a) ()

theorem discard (h : Covered r k) : Covered r (discard k) := by
  intro input a left hr
  obtain ⟨b, hb⟩ := h hr
  change ∃ u, ((fun _ => ()) <$> k) input = (.ok u, left)
  rw [map_eq_pure_bind]
  exact ⟨(), run_bind_ok hb⟩

end Covered

namespace Reader

/-! ## Skipping -/

theorem skipFields_covered {skip skip' : WireType → Reader Unit}
    (h : ∀ w, Covered (skip w) (skip' w)) (fuel : Nat) :
    Covered (skipFields skip fuel) (skipFields skip' fuel) := by
  induction fuel with
  | zero => exact .throw _
  | succ fuel ih =>
    refine .bind_same id fun header => ?_
    by_cases hstop : header.wireType = .stop
    · simp only [if_pos hstop]
      exact .pure () ()
    · simp only [if_neg hstop]
      exact (h header.wireType).bind fun _ _ => ih

theorem replicate_covered {skip skip' : Reader Unit} (h : Covered skip skip') (n : Nat) :
    Covered (replicate n skip) (replicate n skip') := by
  induction n with
  | zero => exact .pure () ()
  | succ n ih => exact h.bind fun _ _ => ih

/-- What is skipped with some depth left is skipped with more. -/
theorem skipWithin_covered {n m : Nat} (hnm : n ≤ m) (w : WireType) :
    Covered (skipWithin n w) (skipWithin m w) := by
  induction n generalizing m w with
  | zero => exact .throw _
  | succ n ih =>
    obtain ⟨m, rfl⟩ : ∃ k, m = k + 1 := ⟨m - 1, by omega⟩
    have hnested (w : WireType) : Covered (skipWithin n w) (skipWithin m w) := ih (by omega) w
    cases w with
    | struct => exact .bind_same id fun rest => skipFields_covered hnested (rest.length + 1)
    | list | set =>
      exact .bind_same id fun header => replicate_covered (hnested header.element) header.rounds
    | map =>
      exact .bind_same id fun header =>
        replicate_covered ((hnested header.key).bind fun _ _ => hnested header.value) header.rounds
    | _ => exact .refl _

end Reader

end ThriftRpc.Wire
