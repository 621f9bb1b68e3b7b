/-!
# Places in a text

Lines and columns are counted from 1, columns in characters. A line ends with its newline.
-/

namespace ThriftRpc.Text

structure Place where
  line : Nat
  column : Nat
  deriving DecidableEq, Repr

namespace Place

def start : Place := ⟨1, 1⟩

def step (p : Place) (c : Char) : Place :=
  if c = '\n' then ⟨p.line + 1, 1⟩ else ⟨p.line, p.column + 1⟩

/-- The place that follows the text `before`. -/
def after (before : List Char) : Place := before.foldl step start

theorem after_append_singleton (before : List Char) (c : Char) :
    after (before ++ [c]) = (after before).step c := by
  simp [after]

/-- The line is told by the newlines passed, the column by the characters behind the last one. -/
theorem after_eq (before : List Char) : after before =
    ⟨before.count '\n' + 1, (before.reverse.takeWhile (· ≠ '\n')).length + 1⟩ := by
  obtain ⟨behind, rfl⟩ : ∃ behind : List Char, before = behind.reverse :=
    ⟨before.reverse, before.reverse_reverse.symm⟩
  induction behind with
  | nil => rfl
  | cons c behind ih =>
    rw [List.reverse_cons, after_append_singleton, ih]
    by_cases h : c = '\n' <;> simp [step, h]

end Place

/-- How many bytes a text takes in UTF-8. -/
def utf8Length : List Char → Nat
  | [] => 0
  | c :: s => c.utf8Size + utf8Length s

/-- The characters before a byte offset, all of them past the end of the text; none if the
offset falls inside a character. -/
def takeBytes? : Nat → List Char → Option (List Char)
  | 0, _ => some []
  | _ + 1, [] => some []
  | n + 1, c :: s =>
    if c.utf8Size ≤ n + 1 then (takeBytes? (n + 1 - c.utf8Size) s).map (c :: ·) else none

/-- The place of a byte offset. -/
def Place.atByte? (source : String) (offset : Nat) : Option Place :=
  (takeBytes? offset source.toList).map Place.after

example : Place.atByte? "a\nbé" 3 = some ⟨2, 2⟩ := by decide +kernel
example : Place.atByte? "a\nbé" 4 = none := by decide +kernel

end ThriftRpc.Text
