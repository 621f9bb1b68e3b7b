import ThriftRpc.Packrat.Memo

/-!
# A grammar of sums and products

    Sum  = Sum "+" Prod | Prod
    Prod = Prod "*" Atom | Atom
    Atom = digit | "(" Sum ")"

The smallest grammar that needs everything memoized rules offer: two left-recursive rules, one
within the other, and a way back to the first. An answer is the text with its operations
bracketed. The state counts how often each body was run.
-/

namespace ThriftRpc.Packrat.Arithmetic

open Text (Cursor)

structure State where
  cursor : Cursor
  sums : Memo String := []
  prods : Memo String := []
  sumRuns : Nat := 0
  prodRuns : Nat := 0

instance : HasCursor State where
  cursor := State.cursor
  moveTo c s := { s with cursor := c }

def sumSlot : Slot State String := ⟨State.sums, fun m s => { s with sums := m }⟩
def prodSlot : Slot State String := ⟨State.prods, fun m s => { s with prods := m }⟩

abbrev Rule := Parser State String

/-- Takes a character that satisfies `p`. -/
def next (p : Char → Bool) : Parser State Char := do
  let c := (← get).cursor
  match c.rest with
  | x :: _ =>
    if p x then
      modify fun s => { s with cursor := c.advance 1 }
      return x
    else failure
  | [] => failure

/-- Runs a parser, going back to where it began if it fails. -/
def attempt {α : Type} (p : Parser State α) : Parser State α := fun s =>
  match p s with
  | (none, s') => (none, { s' with cursor := s.cursor })
  | result => result

/-- The rule so far, an operator and an operand; or else the operand alone. -/
def chain (slot : Slot State String) (op : Char) (operand : Rule) : Rule :=
  attempt (do
    let left ← remembered slot
    let _ ← next (· == op)
    let right ← operand
    return s!"({left}{op}{right})") <|> operand

/-- A digit, or a sum in brackets; `sum` gives the rule for what is inside. -/
def atom (sum : Rule) : Rule :=
  (do return (← next Char.isDigit).toString) <|> attempt (do
    let _ ← next (· == '(')
    let inner ← sum
    let _ ← next (· == ')')
    return s!"[{inner}]")

/-- The two rules where brackets nest less than `depth` deep. -/
def rules : Nat → Rule × Rule
  | 0 => (failure, failure)
  | depth + 1 =>
    let prod := apply prodSlot do
      modify fun s => { s with prodRuns := s.prodRuns + 1 }
      chain prodSlot '*' (atom (rules depth).1)
    let sum := apply sumSlot do
      modify fun s => { s with sumRuns := s.sumRuns + 1 }
      chain sumSlot '+' prod
    (sum, prod)

/-- Brackets cannot nest deeper than the text ahead is long. -/
def sum : Rule := do (rules ((← get).cursor.rest.length + 1)).1

def prod : Rule := do (rules ((← get).cursor.rest.length + 1)).2

/-- Puts the cursor before the character at `offset` of the text. -/
def State.moveTo (source : List Char) (offset : Nat) (s : State) : State :=
  { s with cursor := (Cursor.ofText source).advance offset }

def State.clear (s : State) : State := { s with sums := [], prods := [] }

end ThriftRpc.Packrat.Arithmetic
