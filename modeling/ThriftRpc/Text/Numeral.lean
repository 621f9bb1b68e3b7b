/-!
# Decimal numerals

Signs and runs of decimal digits, as integer and floating-point texts share them.
-/

namespace ThriftRpc.Text

/-- A sign, if there is one, and what follows it. -/
def splitSign : List Char → Bool × List Char
  | '-' :: s => (true, s)
  | '+' :: s => (false, s)
  | s => (false, s)

/-- The natural that a list of decimal digits denotes. -/
def digitsValue (ds : List Char) : Nat := ds.foldl (fun n c => 10 * n + (c.toNat - '0'.toNat)) 0

/-- The integer a text denotes: an optional sign and at least one digit, with nothing around
them. -/
def integer? (s : List Char) : Option Int :=
  let (negative, ds) := splitSign s
  if ds ≠ [] ∧ ds.all Char.isDigit then
    some (if negative then -digitsValue ds else digitsValue ds)
  else none

example : integer? ['-', '4', '2'] = some (-42) := by decide
example : integer? ['+'] = none := by decide

end ThriftRpc.Text
