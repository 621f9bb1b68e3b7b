import Mathlib.Logic.Function.Iterate

/-!
# Recursions that end

A recursion is given by its body, a function of the recursion itself. It ends at a call if a number
of calls of the body decide the result, whatever further calls would give: a recursion with fuel
then has not run out of it. This is so if the body calls the recursion only where a measure is
smaller (`Decreases.ends`).
-/

namespace ThriftRpc

variable {α β F : Type}

/-- The recursion with this body gives `b` at a call, however it would go on after a number of
rounds. -/
def Ends (body : F → F) (call : F → β) (b : β) : Prop :=
  ∃ n, ∀ rest : F, call (body^[n] rest) = b

section Decreasing

variable {body : F → F} {call : α → F → β} {P : α → Prop} {measure : α → Nat}

/-- At a call with `P`, the body calls the recursion only with `P` and a smaller measure. -/
def Decreases (body : F → F) (call : α → F → β) (P : α → Prop) (measure : α → Nat) : Prop :=
  ∀ f g a, P a → (∀ b, P b → measure b < measure a → call b f = call b g) →
    call a (body f) = call a (body g)

theorem Decreases.agree (h : Decreases body call P measure) {n : Nat} {a : α} (ha : P a)
    (hn : measure a < n) (f g : F) : call a (body^[n] f) = call a (body^[n] g) := by
  induction n generalizing a with
  | zero => exact absurd hn (Nat.not_lt_zero _)
  | succ n ih =>
    rw [Function.iterate_succ_apply', Function.iterate_succ_apply']
    exact h _ _ a ha fun b hb hlt => ih hb (by omega)

/-- A recursion with fuel has an answer if there is more of it than the measure. -/
theorem Decreases.ends (h : Decreases body call P measure) (run : Nat → F)
    (hrun : ∀ n, run (n + 1) = body (run n)) {n : Nat} {a : α} (ha : P a) (hn : measure a < n) :
    Ends body (call a) (call a (run n)) := by
  have hiterate : ∀ n, run n = body^[n] (run 0) := by
    intro n
    induction n with
    | zero => rfl
    | succ n ih => rw [hrun, ih, Function.iterate_succ_apply']
  refine ⟨n, fun rest => ?_⟩
  rw [hiterate n]
  exact h.agree ha hn rest _

end Decreasing

end ThriftRpc
