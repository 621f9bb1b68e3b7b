import ThriftRpc.Idl.Parser.Definition
import ThriftRpc.Proofs.Packrat.Running
import ThriftRpc.Proofs.Text.Cursor

/-!
# The states that parsing comes to

All that parsers do to a state are a few moves: forward over text that lies ahead, back to where a
state stood, on to the end of an answer in a memo, and notes and entries besides (`Reached`). So
every cursor that a state holds stands between two characters of the text (`Reached.placed`). What
one parser does moves neither the cursor nor the furthest failure back, and no settled entry either
(`Onward`).
-/

namespace ThriftRpc.Idl

open Packrat (Entry Memo Slot)
open Text (Cursor)

/-- The rules that have a memo. -/
inductive ListRule where
  | fields
  | functions
  | members
  | literals
  deriving DecidableEq

namespace ListRule

abbrev Item : ListRule → Type
  | fields => Field
  | functions => Function
  | members => EnumMember
  | literals => String

def slot : (r : ListRule) → Slot State (List r.Item)
  | fields => Parser.fieldSlot
  | functions => Parser.functionSlot
  | members => Parser.memberSlot
  | literals => Parser.literalSlot

end ListRule

/-- Where the answer ends, if there is one. -/
def stopOf? {α : Type} : Entry α → Option Cursor
  | .running _ => none
  | .settled _ stop => some stop

/-- Where a settled answer of a rule ends. -/
def State.stop? (s : State) (r : ListRule) (offset : Nat) : Option Cursor :=
  (r.slot.at? offset s).bind stopOf?

section Memo

variable {r : ListRule} {s : State}

theorem State.stop?_record (r r' : ListRule) (i j : Nat) (e : Entry (List r'.Item)) (s : State) :
    (r'.slot.record j e s).stop? r i = if r = r' ∧ i = j then stopOf? e else s.stop? r i := by
  cases r <;> cases r' <;>
    simp only [State.stop?, ListRule.slot, Slot.at?, Slot.record, Parser.fieldSlot,
      Parser.functionSlot, Parser.memberSlot, Parser.literalSlot, Memo.at?_record, reduceCtorEq,
      true_and, false_and, if_false] <;>
    split <;> rfl

theorem State.stop?_record_self (r : ListRule) (i : Nat) (e : Entry (List r.Item)) (s : State) :
    (r.slot.record i e s).stop? r i = stopOf? e := by
  rw [State.stop?_record, if_pos ⟨rfl, rfl⟩]

@[simp] theorem ListRule.cursor_record (r : ListRule) (i : Nat) (e : Entry (List r.Item))
    (s : State) : (r.slot.record i e s).cursor = s.cursor := by
  cases r <;> rfl

@[simp] theorem ListRule.furthest_record (r : ListRule) (i : Nat) (e : Entry (List r.Item))
    (s : State) : (r.slot.record i e s).furthest = s.furthest := by
  cases r <;> rfl

@[simp] theorem ListRule.expected_record (r : ListRule) (i : Nat) (e : Entry (List r.Item))
    (s : State) : (r.slot.record i e s).expected = s.expected := by
  cases r <;> rfl

@[simp] theorem State.stop?_moved (s : State) (c : Cursor) (r : ListRule) (i : Nat) :
    State.stop? { s with cursor := c } r i = s.stop? r i := by
  cases r <;> rfl

@[simp] theorem State.stop?_note (s : State) (what : String) (r : ListRule) (i : Nat) :
    (s.note what).stop? r i = s.stop? r i := by
  simp only [State.note]
  split <;> split <;> cases r <;> rfl

end Memo

section Note

variable {s : State} {what : String}

@[simp] theorem State.cursor_note (s : State) (what : String) : (s.note what).cursor = s.cursor := by
  simp only [State.note]
  split <;> split <;> rfl

/-- A note is about the cursor or what was furthest before, whichever is further. -/
theorem State.furthest_note (s : State) (what : String) :
    (s.note what).furthest =
      if s.furthest.offset < s.cursor.offset then s.cursor else s.furthest := by
  simp only [State.note]
  split <;> split <;> rfl

theorem State.of_mem_expected_note {t : String} (h : t ∈ (s.note what).expected) :
    t ∈ s.expected ∨ t = what := by
  simp only [State.note] at h
  split at h <;> split at h
  · exact .inr (List.mem_singleton.mp h)
  · exact absurd h List.not_mem_nil
  · exact (List.mem_append.mp h).imp_right List.mem_singleton.mp
  · exact .inl h

theorem State.furthest_le_note (s : State) (what : String) :
    s.furthest.offset ≤ (s.note what).furthest.offset := by
  rw [State.furthest_note]
  split <;> omega

theorem State.cursor_le_note (s : State) (what : String) :
    s.cursor.offset ≤ (s.note what).furthest.offset := by
  rw [State.furthest_note]
  split <;> omega

end Note

/-! ## Moves -/

/-- The states that come of the moves of parsers on a text. -/
inductive Reached (text : List Char) : State → Prop
  | start : Reached text (State.ofText text)
  | forward {s : State} {n : Nat} : Reached text s → n ≤ s.cursor.rest.length →
    Reached text { s with cursor := s.cursor.advance n }
  | back {s s₀ : State} : Reached text s → Reached text s₀ →
    Reached text { s with cursor := s₀.cursor }
  | reread {s : State} {r : ListRule} {stop : Cursor} : Reached text s →
    s.stop? r s.cursor.offset = some stop → Reached text { s with cursor := stop }
  | note {s : State} {what : String} : Reached text s → what ≠ "" → Reached text (s.note what)
  | run {s : State} (r : ListRule) (offset : Nat) (recursed : Bool) : Reached text s →
    Reached text (r.slot.record offset (.running recursed) s)
  | settle {s : State} (r : ListRule) {offset : Nat} (answer : Option (List r.Item)) :
    Reached text s → offset ≤ s.cursor.offset →
    Reached text (r.slot.record offset (.settled answer s.cursor) s)

/-- Every cursor of the state stands between two characters of the text. -/
structure Placed (text : List Char) (s : State) : Prop where
  cursor : s.cursor.Splits text
  furthest : s.furthest.Splits text
  stop : ∀ r offset stop, s.stop? r offset = some stop →
    stop.Splits text ∧ offset ≤ stop.offset
  expected : ∀ what ∈ s.expected, what ≠ ""

theorem Reached.placed {text : List Char} {s : State} (h : Reached text s) : Placed text s := by
  induction h with
  | start =>
    have hnone : ∀ r offset, (State.ofText text).stop? r offset = none := fun r _ => by
      cases r <;> rfl
    exact ⟨.ofText text, .ofText text, by simp [hnone], fun what h => absurd h List.not_mem_nil⟩
  | forward _ hn ih =>
    exact { ih with cursor := ih.cursor.advance hn, stop := by simpa using ih.stop }
  | back _ _ ih ih₀ => exact { ih with cursor := ih₀.cursor, stop := by simpa using ih.stop }
  | reread _ hstop ih =>
    exact { ih with cursor := (ih.stop _ _ _ hstop).1, stop := by simpa using ih.stop }
  | @note s what _ hwhat ih =>
    refine ⟨by simpa using ih.cursor, ?_, by simpa using ih.stop, fun t ht => ?_⟩
    · rw [State.furthest_note]
      split
      · exact ih.cursor
      · exact ih.furthest
    · rcases State.of_mem_expected_note ht with ht | rfl
      · exact ih.expected t ht
      · exact hwhat
  | run r offset recursed _ ih =>
    refine ⟨by simpa using ih.cursor, by simpa using ih.furthest, fun r' offset' stop h => ?_,
      by simpa using ih.expected⟩
    rw [State.stop?_record] at h
    split at h
    · cases h
    · exact ih.stop _ _ _ h
  | settle r answer _ hle ih =>
    refine ⟨by simpa using ih.cursor, by simpa using ih.furthest, fun r' offset' stop h => ?_,
      by simpa using ih.expected⟩
    rw [State.stop?_record] at h
    split at h
    · next heq =>
      cases h
      exact ⟨ih.cursor, heq.2 ▸ hle⟩
    · exact ih.stop _ _ _ h

/-- The places that a state keeps: where it stands, where it came furthest, where answers end. -/
def State.Keeps (s : State) (c : Cursor) : Prop :=
  c = s.cursor ∨ c = s.furthest ∨ ∃ r offset, s.stop? r offset = some c

theorem Placed.keeps {text : List Char} {s : State} {c : Cursor} (h : Placed text s)
    (hc : s.Keeps c) : c.Splits text := by
  rcases hc with rfl | rfl | ⟨r, offset, hstop⟩
  · exact h.cursor
  · exact h.furthest
  · exact (h.stop r offset c hstop).1

/-- A state further on in the same parse, wherever its cursor stands. -/
structure Later (text : List Char) (s s' : State) : Prop where
  reached : Reached text s'
  furthest : s.furthest.offset ≤ s'.furthest.offset
  kept : ∀ r offset stop, s.stop? r offset = some stop →
    ∃ stop', s'.stop? r offset = some stop' ∧ stop.offset ≤ stop'.offset

/-- What a parser makes of a state. -/
structure Onward (text : List Char) (s s' : State) : Prop extends Later text s s' where
  cursor : s.cursor.offset ≤ s'.cursor.offset

section Runs

variable {text : List Char} {s s' s'' : State}

theorem Later.refl (h : Reached text s) : Later text s s :=
  ⟨h, Nat.le_refl _, fun _ _ stop hstop => ⟨stop, hstop, Nat.le_refl _⟩⟩

theorem Later.trans (h : Later text s s') (h' : Later text s' s'') : Later text s s'' := by
  refine ⟨h'.reached, h.furthest.trans h'.furthest, fun r offset stop hstop => ?_⟩
  obtain ⟨stop', hstop', hle⟩ := h.kept r offset stop hstop
  obtain ⟨stop'', hstop'', hle'⟩ := h'.kept r offset stop' hstop'
  exact ⟨stop'', hstop'', hle.trans hle'⟩

theorem Later.moved (h : Later text s s') {c : Cursor} (hc : Reached text { s' with cursor := c }) :
    Later text s { s' with cursor := c } :=
  ⟨hc, h.furthest, by simpa using h.kept⟩

theorem Later.note (h : Reached text s) {what : String} (hwhat : what ≠ "") :
    Later text s (s.note what) :=
  ⟨h.note hwhat, s.furthest_le_note what, by simpa using (Later.refl h).kept⟩

/-- A new entry moves nothing back if there was none, or one that ends no later. -/
theorem Later.record (h : Later text s s') {r : ListRule} {offset : Nat} {e : Entry (List r.Item)}
    (hs' : Reached text (r.slot.record offset e s'))
    (hstop : ∀ stop, s.stop? r offset = some stop →
      ∃ stop', stopOf? e = some stop' ∧ stop.offset ≤ stop'.offset) :
    Later text s (r.slot.record offset e s') := by
  refine ⟨hs', by rw [ListRule.furthest_record]; exact h.furthest, fun r' offset' stop h' => ?_⟩
  rw [State.stop?_record]
  split
  · next heq =>
    obtain ⟨rfl, rfl⟩ := heq
    exact hstop stop h'
  · exact h.kept r' offset' stop h'

theorem Onward.refl (h : Reached text s) : Onward text s s := ⟨.refl h, Nat.le_refl _⟩

theorem Onward.trans (h : Onward text s s') (h' : Onward text s' s'') : Onward text s s'' :=
  ⟨h.toLater.trans h'.toLater, h.cursor.trans h'.cursor⟩

theorem Onward.forward (h : Reached text s) {n : Nat} (hn : n ≤ s.cursor.rest.length) :
    Onward text s { s with cursor := s.cursor.advance n } :=
  ⟨(Later.refl h).moved (h.forward hn), Nat.le_add_right _ _⟩

theorem Onward.note (h : Reached text s) {what : String} (hwhat : what ≠ "") :
    Onward text s (s.note what) :=
  ⟨.note h hwhat, by rw [State.cursor_note]⟩

/-- Going back to where a run began leaves it onward. -/
theorem Onward.back (hs : Reached text s) (h : Later text s s') :
    Onward text s { s' with cursor := s.cursor } :=
  ⟨h.moved (h.reached.back hs), Nat.le_refl _⟩

end Runs

end ThriftRpc.Idl
