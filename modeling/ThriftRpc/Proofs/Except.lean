import ThriftRpc.Proofs.Lists

/-!
# Steps that can fail

A success of a composed step is a success of each of its parts.
-/

namespace ThriftRpc

variable {ε α β : Type}

theorem bind_eq_ok {m : Except ε α} {k : α → Except ε β} {b : β} (h : m >>= k = .ok b) :
    ∃ a, m = .ok a ∧ k a = .ok b := by
  cases m with
  | error e => cases h
  | ok a => exact ⟨a, rfl, h⟩

theorem exists_eq_ok {m : Except ε α} (h : m.isOk = true) : ∃ a, m = .ok a := by
  cases m with
  | error e => cases h
  | ok a => exact ⟨a, rfl⟩

theorem map_eq_ok {m : Except ε α} {f : α → β} {b : β} (h : f <$> m = .ok b) :
    ∃ a, m = .ok a ∧ f a = b := by
  cases m with
  | error e => cases h
  | ok a => exact ⟨a, rfl, Except.ok.inj h⟩

theorem mapError_eq_ok {δ : Type} {m : Except ε α} {f : ε → δ} {a : α}
    (h : m.mapError f = .ok a) : m = .ok a := by
  cases m with
  | error e => cases h
  | ok b => exact congrArg Except.ok (Except.ok.inj h)

theorem mapM_eq_ok {f : α → Except ε β} {as : List α} {bs : List β} (h : as.mapM f = .ok bs) :
    List.Forall₂ (fun a b => f a = .ok b) as bs := by
  induction as generalizing bs with
  | nil => cases h; exact .nil
  | cons a as ih =>
    rw [List.mapM_cons] at h
    obtain ⟨b, hb, h⟩ := bind_eq_ok h
    obtain ⟨rest, hrest, h⟩ := bind_eq_ok h
    cases h
    exact .cons hb (ih hrest)

/-- What holds of the start and is kept by every step holds of the end; a step may use which
elements come before and after its own. -/
theorem foldlM_eq_ok {f : β → α → Except ε β} {as : List α} {b c : β} (P : List α → β → Prop)
    (hstart : P [] b)
    (hstep : ∀ before a after b c, as = before ++ a :: after → P before b → f b a = .ok c →
      P (before ++ [a]) c)
    (h : as.foldlM f b = .ok c) : P as c := by
  suffices hrun : ∀ (after before : List α) (b : β), as = before ++ after → P before b →
      after.foldlM f b = .ok c → P as c from hrun as [] b rfl hstart h
  intro after
  induction after with
  | nil =>
    intro before b has hb h
    cases h
    rw [has, List.append_nil]
    exact hb
  | cons a after ih =>
    intro before b has hb h
    rw [List.foldlM_cons] at h
    obtain ⟨next, hnext, h⟩ := bind_eq_ok h
    exact ih (before ++ [a]) next (by simp [has]) (hstep before a after b next has hb hnext) h

/-- Whatever error the step ends in satisfies `E`. -/
def Errs (m : Except ε α) (E : ε → Prop) : Prop := ∀ e, m = .error e → E e

namespace Errs

variable {m : Except ε α} {k : α → Except ε β} {E : ε → Prop}

theorem ok (a : α) : Errs (.ok a : Except ε α) E := fun _ h => nomatch h

theorem error {e : ε} (h : E e) : Errs (.error e : Except ε α) E := fun _ he => Except.error.inj he ▸ h

theorem bind (h : Errs m E) (hk : ∀ a, Errs (k a) E) : Errs (m >>= k) E := by
  intro e he
  cases m with
  | error e' => exact h e (congrArg Except.error (Except.error.inj he))
  | ok a => exact hk a e he

theorem map (f : α → β) (h : Errs m E) : Errs (f <$> m) E := by
  intro e he
  cases m with
  | error e' => exact h e (congrArg Except.error (Except.error.inj he))
  | ok a => cases he

theorem mapError {δ : Type} {f : ε → δ} {E : δ → Prop} (h : Errs m fun e => E (f e)) :
    Errs (m.mapError f) E := by
  intro e he
  cases m with
  | error e' => exact Except.error.inj he ▸ h e' rfl
  | ok a => cases he

theorem foldlM {f : β → α → Except ε β} {as : List α} (h : ∀ b, ∀ a ∈ as, Errs (f b a) E) (b : β) :
    Errs (as.foldlM f b) E := by
  induction as generalizing b with
  | nil => exact .ok b
  | cons a as ih =>
    rw [List.foldlM_cons]
    exact (h b a List.mem_cons_self).bind fun b =>
      ih (fun b a ha => h b a (List.mem_cons_of_mem _ ha)) b

end Errs

end ThriftRpc
