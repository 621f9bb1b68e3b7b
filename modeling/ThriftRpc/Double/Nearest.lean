import ThriftRpc.Double.Basic

/-!
# The nearest double

Rounding an exact quotient of naturals to the nearest double, a tie to the even neighbour, and
from it the doubles nearest to an integer and to a decimal.
-/

namespace ThriftRpc.Double

/-- The natural nearest to `num / den`, a tie to the even one. -/
def roundQuotient (num den : Nat) : Nat :=
  let q := num / den
  let r := num % den
  if 2 * r < den then q
  else if den < 2 * r then q + 1
  else q + q % 2

/-- The binary exponent of a positive quotient: the greatest `e` with `2 ^ e ≤ num / den`. -/
def binaryExponent (num den : Nat) : Int :=
  let guess : Int := (num.log2 : Int) - den.log2
  if den * Nat.pow 2 guess.toNat ≤ num * Nat.pow 2 (-guess).toNat then guess else guess - 1

/-- The double nearest to `± num / den`. -/
def ofQuotient (negative : Bool) (num den : Nat) : Double :=
  if num = 0 then ofMagnitude negative 0
  else
    let unit := max (-1074) (binaryExponent num den - 52)
    let size := roundQuotient (num * Nat.pow 2 (-unit).toNat) (den * Nat.pow 2 unit.toNat)
    ofMagnitude negative ((unit + 1074).toNat * leadingBit + size)

def ofInt (n : Int) : Double := ofQuotient (n < 0) n.natAbs 1

/-- The double nearest to `± digits * 10 ^ exponent`. Exponents far beyond the range of doubles
are answered without computing the power. -/
def ofDecimal (negative : Bool) (digits : Nat) (exponent : Int) : Double :=
  if digits = 0 then ofMagnitude negative 0
  else if 310 < exponent then infinity negative
  else if (digits.log2 : Int) + 1 + 3 * exponent < -1080 then ofMagnitude negative 0
  else ofQuotient negative (digits * Nat.pow 10 exponent.toNat) (Nat.pow 10 (-exponent).toNat)

example : ofDecimal false 1 (-1) = ⟨0x3FB999999999999A⟩ := by decide +kernel
example : ofDecimal true 5 (-324) = ⟨0x8000000000000001⟩ := by decide +kernel
example : ofDecimal false 24703282292062327208 (-343) = zero := by decide +kernel
example : ofDecimal false 17976931348623159 292 = infinity false := by decide +kernel
example : ofInt 9007199254740993 = ofInt 9007199254740992 := by decide +kernel

end ThriftRpc.Double
