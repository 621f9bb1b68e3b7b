/-!
# Double-precision numbers

A double is its 64 bits. A finite one stands for `± significand * 2 ^ scale`, and the operations
here are exact integer arithmetic on that form. `equal` is the comparison of numbers, under which
the two zeros agree and a NaN differs from itself; `=` compares bits.
-/

namespace ThriftRpc

structure Double where
  bits : UInt64
  deriving DecidableEq, Repr

namespace Double

def zero : Double := ⟨0⟩
def nan : Double := ⟨0x7FF8000000000000⟩

/-- The value with the other sign, also for zeros and for a NaN. -/
def negated (x : Double) : Double := ⟨x.bits ^^^ 0x8000000000000000⟩

def isNegative (x : Double) : Bool := 0x8000000000000000 ≤ x.bits
def exponentField (x : Double) : Nat := ((x.bits >>> 52) &&& 0x7FF).toNat
def fraction (x : Double) : Nat := (x.bits &&& 0xFFFFFFFFFFFFF).toNat

def isFinite (x : Double) : Bool := x.exponentField != 0x7FF
def isNaN (x : Double) : Bool := x.exponentField == 0x7FF && x.fraction != 0
def isZero (x : Double) : Bool := x.exponentField == 0 && x.fraction == 0

/-- The bit that stands before the fraction. -/
def leadingBit : Nat := 0x10000000000000

/-- The significand of a finite value: below the least exponent the leading bit is gone. -/
def significand (x : Double) : Nat :=
  if x.exponentField = 0 then x.fraction else leadingBit + x.fraction

def scale (x : Double) : Int := (max 1 x.exponentField : Nat) - 1075

/-- Equality of numbers. -/
def equal (x y : Double) : Bool :=
  !x.isNaN && !y.isNaN && (x.bits == y.bits || (x.isZero && y.isZero))

/-- The integer part of a finite value, rounded towards zero. -/
def truncated (x : Double) : Int :=
  let size := x.significand * Nat.pow 2 x.scale.toNat / Nat.pow 2 (-x.scale).toNat
  if x.isNegative then -size else size

/-- The value with magnitude bits `magnitude` and the given sign; too large a magnitude gives
infinity. -/
def ofMagnitude (negative : Bool) (magnitude : Nat) : Double :=
  let sign := if negative then 0x8000000000000000 else 0
  ⟨UInt64.ofNat (sign + min magnitude 0x7FF0000000000000)⟩

def infinity (negative : Bool) : Double := ofMagnitude negative 0x7FF0000000000000

end Double

end ThriftRpc
