/-!
# Big-endian numbers

Naturals as a fixed count of bytes, the most significant first. `ofBytes_toBytes` and
`toBytes_ofBytes` say that the two directions undo each other.
-/

namespace ThriftRpc.Wire.BigEndian

/-- How many numbers so many bytes can tell apart. -/
def capacity : Nat → Nat
  | 0 => 1
  | count + 1 => 256 * capacity count

/-- The lowest `count` bytes of a natural. -/
def toBytes : Nat → Nat → List UInt8
  | 0, _ => []
  | count + 1, n => toBytes count (n / 256) ++ [UInt8.ofNat n]

def ofBytes (bytes : List UInt8) : Nat := bytes.foldl (fun n b => 256 * n + b.toNat) 0

theorem ofBytes_append_singleton (bytes : List UInt8) (b : UInt8) :
    ofBytes (bytes ++ [b]) = 256 * ofBytes bytes + b.toNat := by
  simp [ofBytes]

theorem length_toBytes (count n : Nat) : (toBytes count n).length = count := by
  induction count generalizing n with
  | zero => rfl
  | succ count ih => simp [toBytes, ih]

theorem ofBytes_toBytes {count n : Nat} (h : n < capacity count) :
    ofBytes (toBytes count n) = n := by
  induction count generalizing n with
  | zero => simp [capacity] at h; subst h; rfl
  | succ count ih =>
    have hd : n / 256 < capacity count := Nat.div_lt_of_lt_mul h
    rw [toBytes, ofBytes_append_singleton, ih hd, UInt8.toNat_ofNat']
    omega

theorem ofBytes_lt (bytes : List UInt8) : ofBytes bytes < capacity bytes.length := by
  suffices h : ∀ (s : List UInt8), ofBytes s.reverse < capacity s.length by
    have := h bytes.reverse
    simpa using this
  intro s
  induction s with
  | nil => decide
  | cons b s ih =>
    rw [List.reverse_cons, ofBytes_append_singleton, List.length_cons, capacity]
    have := b.toNat_lt
    omega

theorem toBytes_ofBytes (bytes : List UInt8) : toBytes bytes.length (ofBytes bytes) = bytes := by
  suffices h : ∀ (s : List UInt8), toBytes s.length (ofBytes s.reverse) = s.reverse by
    have := h bytes.reverse
    simpa using this
  intro s
  induction s with
  | nil => rfl
  | cons b s ih =>
    have hb := b.toNat_lt
    have hd : (256 * ofBytes s.reverse + b.toNat) / 256 = ofBytes s.reverse := by omega
    rw [List.reverse_cons, ofBytes_append_singleton, List.length_cons, toBytes, hd, ih]
    congr 2
    apply UInt8.toNat_inj.1
    rw [UInt8.toNat_ofNat']
    omega

end ThriftRpc.Wire.BigEndian
