import ThriftRpc.Double.Basic

/-!
# The fewest digits that identify a double

`shortest` gives the decimal with the fewest digits among those that round to a given finite
double, and of these the nearest; where two are equally near, a tie rule decides. Everything is
decided by exact comparisons of naturals.
-/

namespace ThriftRpc.Double

/-- The number `digits * 10 ^ exponent`. -/
structure Decimal where
  digits : Nat
  exponent : Int
  deriving DecidableEq, Repr

inductive Tie where
  | toEven
  | up
  deriving DecidableEq, Repr

/-- Compares `a * 10 ^ i` with `n * 2 ^ j`. -/
def compareScaled (a : Nat) (i : Int) (n : Nat) (j : Int) : Ordering :=
  compare (a * Nat.pow 10 i.toNat * Nat.pow 2 (-j).toNat)
    (n * Nat.pow 2 j.toNat * Nat.pow 10 (-i).toNat)

/-- At a power of two the gap to the value below is half the gap to the value above. -/
def narrowBelow (x : Double) : Bool := x.fraction == 0 && 1 < x.exponentField

/-- The decimal lies among the reals that round to the magnitude of `x`: between the midpoints
to its neighbours, the midpoints included if the significand is even. -/
def readsBack (x : Double) (d : Decimal) : Bool :=
  let m := x.significand
  let gap := if x.narrowBelow then 1 else 2
  let least := compareScaled d.digits d.exponent (4 * m - gap) (x.scale - 2)
  let most := compareScaled d.digits d.exponent (4 * m + 2) (x.scale - 2)
  let included := m % 2 == 0
  (least == .gt || (included && least == .eq)) && (most == .lt || (included && most == .eq))

/-- The least `k` such that the magnitude is below `10 ^ k`. The binary exponent gives it up to
two steps. -/
def pointPosition (x : Double) : Int :=
  let guess := ((x.significand.log2 : Int) + x.scale) * 30103 / 100000
  let above := fun k => compareScaled 1 k x.significand x.scale == .gt
  ([guess, guess + 1].find? above).getD (guess + 2)

/-- Of the two decimals with exponent `e` next to the magnitude, the one that reads back; the nearer
one if both do. -/
def onGrid? (tie : Tie) (x : Double) (e : Int) : Option Decimal :=
  let below := x.significand * Nat.pow 2 x.scale.toNat * Nat.pow 10 (-e).toNat /
    (Nat.pow 2 (-x.scale).toNat * Nat.pow 10 e.toNat)
  let lower : Decimal := ⟨below, e⟩
  let upper : Decimal := ⟨below + 1, e⟩
  match x.readsBack lower, x.readsBack upper with
  | true, true =>
    match compareScaled (2 * below + 1) e (2 * x.significand) x.scale, tie with
    | .gt, _ => some lower
    | .lt, _ => some upper
    | .eq, .up => some upper
    | .eq, .toEven => some (if below % 2 = 0 then lower else upper)
  | true, false => some lower
  | false, true => some upper
  | false, false => none

/-- The exact value as a decimal. -/
def exactDecimal (x : Double) : Decimal :=
  ⟨x.significand * Nat.pow 2 x.scale.toNat * Nat.pow 5 (-x.scale).toNat, min x.scale 0⟩

/-- Moves the trailing zeros of the digits into the exponent. -/
def Decimal.withoutZeros (d : Decimal) : Decimal :=
  if d.digits ≠ 0 ∧ d.digits % 10 = 0 then withoutZeros ⟨d.digits / 10, d.exponent + 1⟩ else d
termination_by d.digits

/-- The shortest decimal of the magnitude of a finite value other than zero. Seventeen digits
always suffice; the exact value stands in should none be found. -/
def shortest (tie : Tie) (x : Double) : Decimal :=
  let found := (List.range 17).findSome? fun n =>
    x.onGrid? tie (x.pointPosition - (n + 1 : Nat))
  (found.getD x.exactDecimal).withoutZeros

end ThriftRpc.Double
