import Mathlib.Data.List.Infix
import ThriftRpc.Text.Cursor
import ThriftRpc.Text.Place

/-!
# Cursors in one text

A cursor is a place in a text if its offset tells what lies ahead. Moving over some of what lies
ahead leads to another place in the text. A place between two characters is one in bytes as well.
-/

namespace ThriftRpc.Text

namespace Cursor

variable {source rest rest' : List Char} {c : Cursor} {x : Char}

/-- The cursor is a place in the text, or behind it. -/
def In (source : List Char) (c : Cursor) : Prop := (ofText source).advance c.offset = c

/-- The place from which `rest` lies ahead. -/
def past (c : Cursor) (rest : List Char) : Cursor :=
  ⟨rest, c.offset + (c.rest.length - rest.length)⟩

@[simp] theorem rest_past : (c.past rest).rest = rest := rfl

theorem In.ofText (source : List Char) (n : Nat) : In source ((ofText source).advance n) := by
  simp [In, Cursor.ofText]

theorem In.advance (h : In source c) (n : Nat) : In source (c.advance n) := by
  rw [← h, advance_advance]
  exact In.ofText source _

theorem past_eq_advance (h : rest <:+ c.rest) :
    c.past rest = c.advance (c.rest.length - rest.length) := by
  simp only [past, Cursor.advance, ← List.suffix_iff_eq_drop.mp h]

theorem In.past (h : In source c) (hrest : rest <:+ c.rest) : In source (c.past rest) := by
  rw [past_eq_advance hrest]
  exact h.advance _

theorem past_past (h : rest <:+ c.rest) (h' : rest' <:+ rest) :
    (c.past rest).past rest' = c.past rest' := by
  have := h.length_le
  have := h'.length_le
  simp only [Cursor.past, mk.injEq, true_and]
  omega

theorem advance_one (h : c.rest = x :: rest) : c.advance 1 = c.past rest := by
  rw [past_eq_advance (h ▸ List.suffix_cons x rest), h]
  simp

/-- The less lies ahead, the further a place is. -/
theorem offset_past_le (h : rest'.length ≤ rest.length) :
    (c.past rest).offset ≤ (c.past rest').offset := by
  simp only [past]
  omega

theorem offset_past_lt (h : rest <:+ c.rest) (hlt : rest'.length < rest.length) :
    (c.past rest).offset < (c.past rest').offset := by
  have := h.length_le
  simp only [past]
  omega

theorem offset_le_past : c.offset ≤ (c.past rest).offset := Nat.le_add_right _ _

/-! ## Places between characters -/

/-- The cursor stands between two characters of the text, or at an end of it. -/
def Splits (source : List Char) (c : Cursor) : Prop :=
  ∃ behind, source = behind ++ c.rest ∧ c.offset = behind.length

namespace Splits

theorem ofText (source : List Char) : Splits source (Cursor.ofText source) := ⟨[], rfl, rfl⟩

theorem length_eq (h : Splits source c) : c.offset + c.rest.length = source.length := by
  obtain ⟨behind, rfl, hoffset⟩ := h
  rw [hoffset, List.length_append]

theorem take_eq (h : Splits source c) : source.take c.offset ++ c.rest = source := by
  obtain ⟨behind, rfl, hoffset⟩ := h
  rw [hoffset, List.take_left]

/-- A place between characters is where its offset leads from the start. -/
theorem eq_advance (h : Splits source c) : c = (Cursor.ofText source).advance c.offset := by
  obtain ⟨behind, rfl, hoffset⟩ := h
  rw [Cursor.advance, Cursor.ofText, hoffset, List.drop_left, Nat.zero_add, ← hoffset]

theorem advance (h : Splits source c) {n : Nat} (hn : n ≤ c.rest.length) :
    Splits source (c.advance n) := by
  obtain ⟨behind, rfl, hoffset⟩ := h
  refine ⟨behind ++ c.rest.take n, ?_, ?_⟩
  · rw [rest_advance, List.append_assoc, List.take_append_drop]
  · rw [offset_advance, hoffset, List.length_append, List.length_take_of_le hn]

end Splits

end Cursor

/-- The bytes of the first characters end between two characters. -/
theorem takeBytes?_utf8Length (behind ahead : List Char) :
    takeBytes? (utf8Length behind) (behind ++ ahead) = some behind := by
  induction behind with
  | nil => cases ahead <;> rfl
  | cons c behind ih =>
    have hpos : 0 < c.utf8Size := c.utf8Size_pos
    obtain ⟨n, hn⟩ : ∃ n, utf8Length (c :: behind) = n + 1 := ⟨_, (Nat.succ_pred_eq_of_pos
      (Nat.add_pos_left hpos _)).symm⟩
    have hlen : c.utf8Size + utf8Length behind = n + 1 := hn
    rw [hn, List.cons_append, takeBytes?, if_pos (by omega),
      show n + 1 - c.utf8Size = utf8Length behind by omega, ih]
    rfl

namespace Cursor.Splits

variable {c : Cursor}

/-- The bytes before a place between two characters are those of the characters before it. -/
theorem takeBytes?_eq {source : List Char} (h : c.Splits source) :
    takeBytes? (utf8Length (source.take c.offset)) source = some (source.take c.offset) := by
  have htake := takeBytes?_utf8Length (source.take c.offset) c.rest
  rwa [h.take_eq] at htake

theorem atByte? {source : String} (h : c.Splits source.toList) :
    Place.atByte? source (utf8Length (source.toList.take c.offset)) =
      some (Place.after (source.toList.take c.offset)) := by
  rw [Place.atByte?, h.takeBytes?_eq]
  rfl

end Cursor.Splits

end ThriftRpc.Text
