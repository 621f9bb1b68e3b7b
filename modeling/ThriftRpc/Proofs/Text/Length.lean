import Mathlib.Tactic.GCongr
import Mathlib.Tactic.NormNum
import ThriftRpc.Value.Text
import ThriftRpc.Wire.Writer

/-!
# How long the texts of scalars are

The text of an integer of 64 bits has at most 20 characters, that of a double at most 1600: its
layout writes a number positionally only near the point (`Double.render_length_le`). So every scalar
fits a text on the wire (`text_fits`).
-/

namespace ThriftRpc

namespace Double

theorem digitList_length_le {n k : Nat} (hk : 0 < k) (h : n < 10 ^ k) :
    (digitList n).length ≤ k :=
  (Nat.length_toDigits_le_iff (by decide) hk).mpr h

theorem digitList_length_pos (n : Nat) : 0 < (digitList n).length := Nat.length_toDigits_pos

namespace Decimal

/-- The exponent of the leading digit. -/
def lead (d : Decimal) : Int := d.exponent + ((digitList d.digits).length - 1 : Nat)

theorem plain_length_le {layout : Layout} {d : Decimal} (hfrom : layout.plainFrom ≤ d.lead)
    (hbelow : d.lead < layout.plainBelow) :
    d.plain.length ≤
      (digitList d.digits).length + layout.plainBelow.toNat + (-layout.plainFrom).toNat + 3 := by
  have hpos := digitList_length_pos d.digits
  unfold lead at hfrom hbelow
  unfold plain
  by_cases hexponent : 0 ≤ d.exponent
  · simp only [if_pos hexponent, List.length_append, List.length_replicate, List.length_cons,
      List.length_nil]
    omega
  · simp only [if_neg hexponent, List.length_append, List.length_replicate, List.length_cons,
      List.length_take, List.length_drop]
    omega

theorem scientific_length_le (plus : Bool) (d : Decimal) :
    (d.scientific plus).length ≤
      (digitList d.digits).length + (digitList d.lead.natAbs).length + 3 := by
  have hsign : (if d.lead < 0 then ['-'] else if plus then ['+'] else []).length ≤ 1 := by
    split
    · exact Nat.le_refl _
    · split
      · exact Nat.le_refl _
      · exact Nat.zero_le _
  unfold lead at hsign ⊢
  unfold scientific
  generalize digitList d.digits = ds at hsign ⊢
  match ds with
  | [] =>
    simp only [List.length_append, List.length_cons, List.length_nil] at hsign ⊢
    omega
  | [c] =>
    simp only [List.length_append, List.length_cons, List.length_nil] at hsign ⊢
    omega
  | c :: c' :: more =>
    simp only [List.length_append, List.length_cons] at hsign ⊢
    omega

theorem text_length_le (layout : Layout) (d : Decimal) :
    (d.text layout).length ≤ (digitList d.digits).length + (digitList d.lead.natAbs).length +
      layout.plainBelow.toNat + (-layout.plainFrom).toNat + 3 := by
  unfold text
  by_cases h : layout.plainFrom ≤ d.lead ∧ d.lead < layout.plainBelow
  · have hplain := plain_length_le h.1 h.2
    unfold lead at h hplain ⊢
    rw [if_pos h]
    omega
  · have hscientific := scientific_length_le layout.plus d
    unfold lead at h hscientific ⊢
    rw [if_neg h]
    omega

/-- Trailing zeros that move into the exponent leave the leading digit where it is. -/
theorem withoutZeros_bounds (d : Decimal) :
    d.withoutZeros.digits ≤ d.digits ∧ d.withoutZeros.lead = d.lead := by
  fun_induction withoutZeros d with
  | case1 d h ih =>
    have hten : 10 ≤ d.digits := by omega
    have hlead : (⟨d.digits / 10, d.exponent + 1⟩ : Decimal).lead = d.lead := by
      have hlen : (digitList d.digits).length = (digitList (d.digits / 10)).length + 1 := by
        unfold digitList
        rw [Nat.toDigits_of_base_le (by decide) hten, List.length_append]
        rfl
      have hpos := digitList_length_pos (d.digits / 10)
      unfold lead
      simp only [hlen]
      omega
    exact ⟨Nat.le_trans ih.1 (Nat.div_le_self _ _), ih.2.trans hlead⟩
  | case2 d h => exact ⟨Nat.le_refl _, rfl⟩

end Decimal

/-! ## The shortest decimal -/

variable (x : Double)

theorem exponentField_le : x.exponentField ≤ 0x7FF := by
  unfold exponentField
  rw [UInt64.toNat_and]
  exact Nat.and_le_right

theorem significand_lt : x.significand < 2 ^ 53 := by
  have hfraction : x.fraction ≤ 0xFFFFFFFFFFFFF := by
    unfold fraction
    rw [UInt64.toNat_and]
    exact Nat.and_le_right
  unfold significand leadingBit
  split <;> omega

theorem scale_bounds : -1074 ≤ x.scale ∧ x.scale ≤ 972 := by
  have h := x.exponentField_le
  unfold scale
  omega

theorem pointPosition_bounds : -324 ≤ x.pointPosition ∧ x.pointPosition ≤ 311 := by
  have hlog : x.significand.log2 ≤ 52 := by
    rcases Nat.eq_zero_or_pos x.significand with hzero | hpos
    · rw [hzero]
      decide
    · exact Nat.le_of_lt_succ ((Nat.log2_lt (by omega)).mpr x.significand_lt)
  have hscale := x.scale_bounds
  unfold pointPosition
  simp only [List.find?_cons, List.find?_nil]
  generalize hguess : ((x.significand.log2 : Int) + x.scale) * 30103 / 100000 = guess
  have hbounds : -324 ≤ guess ∧ guess ≤ 309 := by omega
  split
  · simp only [Option.getD_some]
    omega
  · split
    · simp only [Option.getD_some]
      omega
    · simp only [Option.getD_none]
      omega

/-- The digits of the value on the grid of the exponent `e`, cut off. -/
theorem onGrid?_bounds {tie : Tie} {e : Int} {d : Decimal} (h : x.onGrid? tie e = some d) :
    d.exponent = e ∧
      d.digits ≤ x.significand * 2 ^ x.scale.toNat * 10 ^ (-e).toNat + 1 := by
  have hle := Nat.div_le_self (x.significand * 2 ^ x.scale.toNat * 10 ^ (-e).toNat)
    (2 ^ (-x.scale).toNat * 10 ^ e.toNat)
  unfold onGrid? at h
  simp only [Nat.pow_eq] at h
  generalize x.significand * 2 ^ x.scale.toNat * 10 ^ (-e).toNat = size at h hle ⊢
  generalize size / (2 ^ (-x.scale).toNat * 10 ^ e.toNat) = below at h hle
  split at h
  · split at h
    · cases h; exact ⟨rfl, by simp only; omega⟩
    · cases h; exact ⟨rfl, by simp only; omega⟩
    · cases h; exact ⟨rfl, by simp only; omega⟩
    · split at h
      · cases h; exact ⟨rfl, by simp only; omega⟩
      · cases h; exact ⟨rfl, by simp only; omega⟩
  · cases h; exact ⟨rfl, by simp only; omega⟩
  · cases h; exact ⟨rfl, by simp only; omega⟩
  · cases h

/-- A decimal with no more than 1500 digits and an exponent within 1500. -/
def Decimal.Small (d : Decimal) : Prop :=
  d.digits < 10 ^ 1500 ∧ -1500 ≤ d.exponent ∧ d.exponent ≤ 1500

theorem onGrid?_small {tie : Tie} {n : Nat} (hn : n < 17) {d : Decimal}
    (h : x.onGrid? tie (x.pointPosition - (n + 1 : Nat)) = some d) : d.Small := by
  obtain ⟨he, hdigits⟩ := x.onGrid?_bounds h
  have hposition := x.pointPosition_bounds
  have hscale := x.scale_bounds
  have hsize : x.significand * 2 ^ x.scale.toNat * 10 ^ (-(x.pointPosition - (n + 1 : Nat))).toNat
      ≤ 2 ^ 53 * 2 ^ 972 * 10 ^ 341 := by
    have hsignificand := x.significand_lt
    gcongr
    · decide
    · omega
    · decide
    · omega
  have hbound : 2 ^ 53 * 2 ^ 972 * 10 ^ 341 + 1 < 10 ^ 1500 := by decide +kernel
  refine ⟨by omega, ?_⟩
  rw [he]
  omega

theorem exactDecimal_small : x.exactDecimal.Small := by
  have hscale := x.scale_bounds
  have hsize : x.significand * 2 ^ x.scale.toNat * 5 ^ (-x.scale).toNat
      ≤ 2 ^ 53 * 2 ^ 972 * 5 ^ 1074 := by
    have hsignificand := x.significand_lt
    gcongr
    · decide
    · omega
    · decide
    · omega
  have hbound : 2 ^ 53 * 2 ^ 972 * 5 ^ 1074 < 10 ^ 1500 := by decide +kernel
  unfold exactDecimal Decimal.Small
  simp only [Nat.pow_eq]
  omega

theorem shortest_bounds (tie : Tie) :
    (x.shortest tie).digits < 10 ^ 1500 ∧ (x.shortest tie).lead.natAbs < 10 ^ 4 := by
  suffices h : ∀ d : Decimal, d.Small →
      d.withoutZeros.digits < 10 ^ 1500 ∧ d.withoutZeros.lead.natAbs < 10 ^ 4 by
    unfold shortest
    refine h _ ?_
    cases hfound : (List.range 17).findSome? fun n =>
        x.onGrid? tie (x.pointPosition - (n + 1 : Nat)) with
    | none => exact x.exactDecimal_small
    | some d =>
      obtain ⟨n, hn, hd⟩ := List.exists_of_findSome?_eq_some hfound
      exact x.onGrid?_small (List.mem_range.mp hn) hd
  rintro d ⟨hdigits, hexponent⟩
  obtain ⟨hle, hlead⟩ := d.withoutZeros_bounds
  have hlen := digitList_length_le (by decide) hdigits
  refine ⟨Nat.lt_of_le_of_lt hle hdigits, ?_⟩
  rw [hlead]
  unfold Decimal.lead
  omega

theorem render_length_le : (x.render Value.numberLayout).length ≤ 1600 := by
  have hshortest := x.shortest_bounds Value.numberLayout.tie
  have hdigits := digitList_length_le (by decide) hshortest.1
  have hlead := digitList_length_le (by decide) hshortest.2
  have htext : ((x.shortest Value.numberLayout.tie).text Value.numberLayout).length ≤
      _ + _ + 16 + 4 + 3 := Decimal.text_length_le _ _
  have hbody : (if !x.isFinite then ['i', 'n', 'f']
      else if x.isZero then ['0', '.', '0']
      else (x.shortest Value.numberLayout.tie).text Value.numberLayout).length ≤ 1590 := by
    split
    · decide
    · split
      · decide
      · omega
  unfold render
  split
  · decide
  · rw [String.length_ofList, List.length_append]
    split
    · rw [List.length_singleton]
      omega
    · rw [List.length_nil]
      omega

end Double

/-! ## Texts on the wire -/

theorem length_encode_le (t : String) : (Text.Utf8.encode t).length ≤ 4 * t.length := by
  have h : ∀ cs : List Char, (String.ofList cs).utf8ByteSize ≤ 4 * cs.length := by
    intro cs
    induction cs with
    | nil => exact Nat.le_refl 0
    | cons c cs ih =>
      have hc := c.utf8Size_le_four
      rw [String.ofList_cons, String.utf8ByteSize_append, String.utf8ByteSize_singleton,
        List.length_cons]
      omega
  have ht := h t.toList
  rw [String.ofList_toList] at ht
  exact ht

theorem text_fits {t : String} (h : t.length ≤ 1600) :
    (Text.Utf8.encode t).length ≤ Wire.Writer.maxSize := by
  have hencode := length_encode_le t
  unfold Wire.Writer.maxSize
  omega

theorem length_toString_le {n : Int} (hlow : -0x8000000000000000 ≤ n)
    (hhigh : n < 0x8000000000000000) : (toString n).length ≤ 20 := by
  have hdigits : ∀ m : Nat, m ≤ 0x8000000000000000 → m.repr.length ≤ 19 := by
    intro m hm
    show (String.ofList (Double.digitList m)).length ≤ 19
    rw [String.length_ofList]
    exact Double.digitList_length_le (by decide) (by omega)
  show n.repr.length ≤ 20
  rw [Int.repr_eq_if]
  split
  · exact Nat.le_succ_of_le (hdigits _ (by omega))
  · have h := hdigits (-n).toNat (by omega)
    rw [String.length_append]
    show 1 + _ ≤ 20
    omega

end ThriftRpc
