import ThriftRpc.Double.Nearest
import ThriftRpc.Text.Numeral

/-!
# Reading doubles

The decimal texts of doubles: a sign, digits with at most one point among or beside them, and an
exponent; or the words for infinity and not-a-number in any case. No blanks are allowed.
-/

namespace ThriftRpc.Double

open Text (splitSign digitsValue)

/-- A decimal exponent: absent, or `e` and an integer that ends the text. -/
def exponent? : List Char → Option Int
  | [] => some 0
  | c :: s => if c.toLower = 'e' then Text.integer? s else none

/-- Digits and exponent of an unsigned decimal. -/
def unsigned? (s : List Char) : Option (Nat × Int) :=
  let whole := s.takeWhile Char.isDigit
  let rest := s.dropWhile Char.isDigit
  let (places, rest) := match rest with
    | '.' :: t => (t.takeWhile Char.isDigit, t.dropWhile Char.isDigit)
    | t => ([], t)
  if whole = [] ∧ places = [] then none
  else (exponent? rest).map fun e => (digitsValue (whole ++ places), e - places.length)

/-- The double nearest to the number a text denotes. -/
def ofText? (s : List Char) : Option Double :=
  let (negative, body) := splitSign s
  let word := String.ofList (body.map Char.toLower)
  if word = "inf" ∨ word = "infinity" then some (infinity negative)
  else if word = "nan" then some (if negative then nan.negated else nan)
  else (unsigned? body).map fun (digits, e) => ofDecimal negative digits e

example : ofText? ['-', '.', '5', 'E', '+', '1'] = some (ofInt (-5)) := by decide +kernel
example : ofText? ['.', 'e', '1'] = none := by decide +kernel

end ThriftRpc.Double
