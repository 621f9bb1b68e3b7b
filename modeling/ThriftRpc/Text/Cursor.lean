/-!
# Cursors

A position in a text: what lies ahead, and how many characters lie behind.
-/

namespace ThriftRpc.Text

structure Cursor where
  rest : List Char
  offset : Nat

namespace Cursor

def ofText (source : List Char) : Cursor := ⟨source, 0⟩

/-- Moves over so many characters. -/
def advance (c : Cursor) (n : Nat) : Cursor := ⟨c.rest.drop n, c.offset + n⟩

@[simp] theorem rest_advance (c : Cursor) (n : Nat) : (c.advance n).rest = c.rest.drop n := rfl

@[simp] theorem offset_advance (c : Cursor) (n : Nat) : (c.advance n).offset = c.offset + n := rfl

theorem advance_advance (c : Cursor) (m n : Nat) :
    (c.advance m).advance n = c.advance (m + n) := by
  simp [advance, List.drop_drop, Nat.add_assoc]

end Cursor

end ThriftRpc.Text
