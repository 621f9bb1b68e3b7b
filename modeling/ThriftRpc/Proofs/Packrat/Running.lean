import ThriftRpc.Packrat.Memo

/-!
# Running memoized rules

What a parser does in one run, by what its parts do. An application of a rule either reads the memo
or runs the body, and then again as long as its answer grows.
-/

namespace ThriftRpc.Packrat

open HasCursor (cursor moveTo)
open Text (Cursor)

variable {σ α β : Type} {s s' : σ} {a : α}

theorem bind_of_some {p : Parser σ α} {f : α → Parser σ β} (h : p s = (some a, s')) :
    (p >>= f) s = f a s' := by
  simp only [bind, OptionT.bind, OptionT.mk, StateT.bind, h]

theorem bind_of_none {p : Parser σ α} {f : α → Parser σ β} (h : p s = (none, s')) :
    (p >>= f) s = (none, s') := by
  simp only [bind, OptionT.bind, OptionT.mk, StateT.bind, h]
  rfl

theorem orElse_of_some {p q : Parser σ α} (h : p s = (some a, s')) :
    (p <|> q) s = (some a, s') := by
  have hp : p.run s = (some a, s') := h
  show (p <|> q).run s = _
  rw [OptionT.run_orElse]
  simp only [Option.elimM, bind, StateT.bind, hp]
  rfl

theorem orElse_of_none {p q : Parser σ α} (h : p s = (none, s')) : (p <|> q) s = q s' := by
  have hp : p.run s = (none, s') := h
  show (p <|> q).run s = _
  rw [OptionT.run_orElse]
  simp only [Option.elimM, bind, StateT.bind, hp]
  rfl

theorem bind_eq_some {p : Parser σ α} {f : α → Parser σ β} {b : β} {s'' : σ}
    (h : (p >>= f) s = (some b, s'')) :
    ∃ a s', p s = (some a, s') ∧ f a s' = (some b, s'') := by
  rcases hp : p s with ⟨_ | a, s'⟩
  · rw [bind_of_none hp] at h
    cases h
  · exact ⟨a, s', rfl, (bind_of_some hp).symm.trans h⟩

theorem bind_eq_none {p : Parser σ α} {f : α → Parser σ β} {s'' : σ}
    (h : (p >>= f) s = (none, s'')) :
    p s = (none, s'') ∨ ∃ a s', p s = (some a, s') ∧ f a s' = (none, s'') := by
  rcases hp : p s with ⟨_ | a, s'⟩
  · rw [bind_of_none hp] at h
    cases h
    exact .inl rfl
  · exact .inr ⟨a, s', rfl, (bind_of_some hp).symm.trans h⟩

theorem orElse_eq_some {p q : Parser σ α} {s'' : σ} (h : (p <|> q) s = (some a, s'')) :
    p s = (some a, s'') ∨ ∃ s', p s = (none, s') ∧ q s' = (some a, s'') := by
  rcases hp : p s with ⟨_ | a', s'⟩
  · exact .inr ⟨s', rfl, (orElse_of_none hp).symm.trans h⟩
  · exact .inl ((orElse_of_some hp).symm.trans h)

theorem orElse_eq_none {p q : Parser σ α} {s'' : σ} (h : (p <|> q) s = (none, s'')) :
    ∃ s', p s = (none, s') ∧ q s' = (none, s'') := by
  rcases hp : p s with ⟨_ | a, s'⟩
  · exact ⟨s', rfl, (orElse_of_none hp).symm.trans h⟩
  · rw [orElse_of_some hp] at h
    cases h

/-! ## Rules -/

variable [HasCursor σ] {slot : Slot σ α} {body : Parser σ α} {c stop : Cursor} {seed : α}

section Remembered

theorem remembered_running {r : Bool} (hc : cursor s = c)
    (h : slot.at? c.offset s = some (.running r)) :
    remembered slot s = (none, slot.record c.offset (.running true) s) := by
  simp only [remembered, remembered?, hc, h, Option.getD_some]

theorem remembered_settled (hc : cursor s = c)
    (h : slot.at? c.offset s = some (.settled (some a) stop)) :
    remembered slot s = (some a, moveTo stop s) := by
  simp only [remembered, remembered?, hc, h, Option.getD_some]

end Remembered

section Apply

theorem apply_of_none (hc : cursor s = c) (h : slot.at? c.offset s = none) :
    apply slot body s = evaluate slot body s := by
  simp only [apply, remembered?, hc, h]

theorem apply_of_failed (hc : cursor s = c) (h : slot.at? c.offset s = some (.settled none stop)) :
    apply slot body s = (none, s) := by
  simp only [apply, remembered?, hc, h]

theorem apply_of_settled (hc : cursor s = c)
    (h : slot.at? c.offset s = some (.settled (some a) stop)) :
    apply slot body s = (some a, moveTo stop s) := by
  simp only [apply, remembered?, hc, h]

end Apply

section Evaluate

theorem evaluate_of_none (hc : cursor s = c)
    (hrun : body (slot.record c.offset (.running false) s) = (none, s')) :
    evaluate slot body s =
      (none, moveTo c (slot.record c.offset (.settled none (cursor s')) s')) := by
  simp only [evaluate, hc, hrun]

theorem evaluate_of_seed (hc : cursor s = c)
    (hrun : body (slot.record c.offset (.running false) s) = (some seed, s'))
    (h : slot.at? c.offset s' ≠ some (.running true)) : evaluate slot body s =
      (some seed, slot.record c.offset (.settled (some seed) (cursor s')) s') := by
  simp only [evaluate, hc, hrun]

theorem evaluate_of_grown {s₂ : σ} {result : Option α × σ} (hc : cursor s = c)
    (hrun : body (slot.record c.offset (.running false) s) = (some seed, s'))
    (h : slot.at? c.offset s' = some (.running true))
    (hgrow : grow slot body c (c.rest.length + 1)
      (slot.record c.offset (.settled (some seed) (cursor s')) s') = s₂)
    (hlast : remembered? slot (moveTo c s₂) = some result) : evaluate slot body s = result := by
  simp only [evaluate, hc, hrun, h, hgrow, hlast, Option.getD_some]

theorem evaluate_of_some {s₂ : σ} (hmove : cursor (moveTo c s₂) = c) (hc : cursor s = c)
    (hrun : body (slot.record c.offset (.running false) s) = (some seed, s'))
    (h : slot.at? c.offset s' = some (.running true))
    (hgrow : grow slot body c (c.rest.length + 1)
      (slot.record c.offset (.settled (some seed) (cursor s')) s') = s₂)
    (hlast : slot.at? c.offset (moveTo c s₂) = some (.settled (some a) stop)) :
    evaluate slot body s = (some a, moveTo stop (moveTo c s₂)) :=
  evaluate_of_grown hc hrun h hgrow (by simp only [remembered?, hmove, hlast])

end Evaluate

section Grow

/-- One round of growing, from which `loop` goes on. -/
def growRound (slot : Slot σ α) (body : Parser σ α) (start : Cursor) (loop : σ → σ) (s : σ) : σ :=
  match body (moveTo start s) with
  | (none, s) => s
  | (some a, s) =>
    match slot.at? start.offset s with
    | some (.settled _ stop) =>
      if stop.offset < (cursor s).offset then
        loop (slot.record start.offset (.settled (some a) (cursor s)) s)
      else s
    | _ => s

theorem grow_succ (n : Nat) (s : σ) :
    grow slot body c (n + 1) s = growRound slot body c (grow slot body c n) s := rfl

variable {n : Nat} {answer : Option α} {loop : σ → σ}

theorem growRound_failed (hrun : body (moveTo c s) = (none, s')) :
    growRound slot body c loop s = s' := by
  simp only [growRound, hrun]

theorem growRound_unsettled (hrun : body (moveTo c s) = (some a, s'))
    (h : ∀ answer stop, slot.at? c.offset s' ≠ some (.settled answer stop)) :
    growRound slot body c loop s = s' := by
  simp only [growRound, hrun]

theorem growRound_further (hrun : body (moveTo c s) = (some a, s'))
    (h : slot.at? c.offset s' = some (.settled answer stop))
    (hlt : stop.offset < (cursor s').offset) : growRound slot body c loop s =
      loop (slot.record c.offset (.settled (some a) (cursor s')) s') := by
  simp only [growRound, hrun, h, if_pos hlt]

theorem growRound_done (hrun : body (moveTo c s) = (some a, s'))
    (h : slot.at? c.offset s' = some (.settled answer stop))
    (hle : (cursor s').offset ≤ stop.offset) : growRound slot body c loop s = s' := by
  simp only [growRound, hrun, h, if_neg (Nat.not_lt.mpr hle)]

theorem grow_further (hrun : body (moveTo c s) = (some a, s'))
    (h : slot.at? c.offset s' = some (.settled answer stop))
    (hlt : stop.offset < (cursor s').offset) : grow slot body c (n + 1) s =
      grow slot body c n (slot.record c.offset (.settled (some a) (cursor s')) s') :=
  growRound_further hrun h hlt

theorem grow_done (hrun : body (moveTo c s) = (some a, s'))
    (h : slot.at? c.offset s' = some (.settled answer stop))
    (hle : (cursor s').offset ≤ stop.offset) : grow slot body c (n + 1) s = s' :=
  growRound_done hrun h hle

end Grow

end ThriftRpc.Packrat
