import Mathlib.Data.Rat.Floor
import Mathlib.Tactic.Linarith
import Mathlib.Tactic.Ring
import ThriftRpc.Proofs.Text.Length

/-!
# The number that a double is

A finite double is the rational `toRat` of its three fields: a sign, a biased exponent and a binary
fraction. `truncated` is that rational rounded towards zero (`truncated_eq`), and only one double
comes out as `2 ^ 63` (`truncated_eq_two_pow_63`).
-/

namespace ThriftRpc

/-- The integer part, rounded towards zero. -/
def towardsZero (q : ℚ) : Int := if 0 ≤ q then ⌊q⌋ else ⌈q⌉

theorem towardsZero_neg (q : ℚ) : towardsZero (-q) = -towardsZero q := by
  unfold towardsZero
  rcases lt_trichotomy q 0 with h | rfl | h
  · rw [if_pos (by linarith), if_neg (not_le.mpr h), Int.floor_neg]
  · simp
  · rw [if_neg (by linarith), if_pos h.le, Int.ceil_neg]

namespace Double

variable (x : Double)

/-- The absolute value: the point stands behind a leading one, but at the least exponent behind a
zero. -/
def magnitude : ℚ :=
  if x.exponentField = 0 then x.fraction / 2 ^ 52 * 2 ^ (-1022 : Int)
  else (1 + x.fraction / 2 ^ 52) * 2 ^ ((x.exponentField : Int) - 1023)

def toRat : ℚ := if x.isNegative then -x.magnitude else x.magnitude

/-- With the point moved behind the last place there is a natural significand. -/
theorem magnitude_eq : x.magnitude = x.significand * 2 ^ x.scale := by
  unfold magnitude significand scale leadingBit
  have hplaces : (2 : ℚ) ^ (-52 : Int) = 1 / 2 ^ 52 := by norm_num
  by_cases h : x.exponentField = 0
  · have hscale : ((max 1 0 : Nat) : Int) - 1075 = -1022 + -52 := by decide
    rw [if_pos h, if_pos h, h, hscale, zpow_add₀ two_ne_zero, hplaces]
    ring
  · have hscale : ((max 1 x.exponentField : Nat) : Int) - 1075 =
        ((x.exponentField : Int) - 1023) + -52 := by omega
    rw [if_neg h, if_neg h, hscale, zpow_add₀ two_ne_zero, hplaces]
    push_cast
    ring

theorem magnitude_nonneg : 0 ≤ x.magnitude := by
  rw [magnitude_eq]
  exact mul_nonneg (Nat.cast_nonneg _) (zpow_nonneg two_pos.le _)

theorem two_zpow_scale :
    (2 : ℚ) ^ x.scale = (2 ^ x.scale.toNat : Nat) / (2 ^ (-x.scale).toNat : Nat) := by
  have hscale : x.scale = (x.scale.toNat : Int) - ((-x.scale).toNat : Int) := by omega
  conv_lhs => rw [hscale]
  rw [zpow_sub₀ two_ne_zero]
  push_cast
  norm_cast

theorem floor_magnitude :
    ⌊x.magnitude⌋ =
      (x.significand * 2 ^ x.scale.toNat / 2 ^ (-x.scale).toNat : Nat) := by
  rw [magnitude_eq, two_zpow_scale, ← mul_div_assoc, ← Nat.cast_mul, Rat.floor_natCast_div_natCast]
  norm_cast

theorem truncated_eq : x.truncated = towardsZero x.toRat := by
  have hsize : towardsZero x.magnitude =
      (x.significand * 2 ^ x.scale.toNat / 2 ^ (-x.scale).toNat : Nat) := by
    unfold towardsZero
    rw [if_pos x.magnitude_nonneg, x.floor_magnitude]
  unfold truncated toRat
  simp only [Nat.pow_eq]
  split
  · rw [towardsZero_neg, hsize]
  · exact hsize.symm

theorem exponentField_eq : x.exponentField = x.bits.toNat / 2 ^ 52 % 2 ^ 11 := by
  unfold exponentField
  rw [UInt64.toNat_and, UInt64.toNat_shiftRight]
  show x.bits.toNat >>> 52 &&& (2 ^ 11 - 1) = _
  rw [Nat.and_two_pow_sub_one_eq_mod, Nat.shiftRight_eq_div_pow]

theorem fraction_eq : x.fraction = x.bits.toNat % 2 ^ 52 := by
  unfold fraction
  rw [UInt64.toNat_and]
  show x.bits.toNat &&& (2 ^ 52 - 1) = _
  rw [Nat.and_two_pow_sub_one_eq_mod]

theorem isNegative_iff : x.isNegative = true ↔ 2 ^ 63 ≤ x.bits.toNat := by
  unfold isNegative
  rw [decide_eq_true_iff, UInt64.le_iff_toNat_le]
  exact Iff.rfl

/-- The three fields are all the bits. -/
theorem eq_of_fields {x y : Double} (hsign : x.isNegative = y.isNegative)
    (hexponent : x.exponentField = y.exponentField) (hfraction : x.fraction = y.fraction) :
    x = y := by
  have hx := x.bits.toNat_lt
  have hy := y.bits.toNat_lt
  rw [Bool.eq_iff_iff, isNegative_iff, isNegative_iff] at hsign
  rw [exponentField_eq, exponentField_eq] at hexponent
  rw [fraction_eq, fraction_eq] at hfraction
  have hbits : x.bits.toNat = y.bits.toNat := by omega
  exact congrArg Double.mk (UInt64.toNat_inj.mp hbits)

/-! ## The first integer past those of 64 bits -/

def twoPow63 : Double := ⟨0x43E0000000000000⟩

/-- At lower exponents a significand of 53 bits is too small, at higher ones it is too large. -/
theorem fields_of_size (h : x.significand * 2 ^ x.scale.toNat / 2 ^ (-x.scale).toNat = 2 ^ 63) :
    x.exponentField = 1086 ∧ x.fraction = 0 := by
  have hsignificand := x.significand_lt
  have hlow : 11 ≤ x.scale := by
    by_contra hscale
    have hpow : 2 ^ x.scale.toNat ≤ 2 ^ 10 := Nat.pow_le_pow_right (by decide) (by omega)
    have hle := Nat.div_le_self (x.significand * 2 ^ x.scale.toNat) (2 ^ (-x.scale).toNat)
    have hmul : x.significand * 2 ^ x.scale.toNat ≤ x.significand * 2 ^ 10 :=
      Nat.mul_le_mul_left _ hpow
    omega
  rw [show (-x.scale).toNat = 0 by omega, Nat.pow_zero, Nat.div_one] at h
  have hnormal : x.significand = 2 ^ 52 + x.fraction := by
    unfold scale at hlow
    exact if_neg (by omega)
  have hhigh : x.scale ≤ 11 := by
    by_contra hscale
    have hpow : 2 ^ 12 ≤ 2 ^ x.scale.toNat := Nat.pow_le_pow_right (by decide) (by omega)
    have hmul : 2 ^ 52 * 2 ^ 12 ≤ x.significand * 2 ^ x.scale.toNat :=
      Nat.mul_le_mul (by omega) hpow
    omega
  rw [show x.scale.toNat = 11 by omega] at h
  unfold scale at hlow hhigh
  omega

theorem truncated_eq_two_pow_63 : x.truncated = 2 ^ 63 ↔ x = twoPow63 := by
  refine ⟨fun h => ?_, fun h => h ▸ by decide⟩
  unfold truncated at h
  simp only [Nat.pow_eq] at h
  cases hsign : x.isNegative with
  | true =>
    rw [hsign, if_pos rfl] at h
    generalize x.significand * 2 ^ x.scale.toNat / 2 ^ (-x.scale).toNat = size at h
    omega
  | false =>
    rw [hsign, if_neg Bool.false_ne_true] at h
    obtain ⟨hexponent, hfraction⟩ := x.fields_of_size (by exact_mod_cast h)
    exact eq_of_fields hsign hexponent hfraction

end Double

end ThriftRpc
