import Mathlib.Data.Nat.Bitwise
import ThriftRpc.Proofs.Wire.Local
import ThriftRpc.Proofs.Wire.Node

/-!
# Bytes that a reader takes

`Takes r L`: whatever `r` gives, off any input, stands in the relation `L` to the bytes that it takes.
It composes step by step, as `Reads` does, and goes the other way: a header that is read had its
layout in the input (`fieldHeader_takes`, `messageHeader_takes`).
-/

namespace ThriftRpc.Wire

variable {ε α β : Type}

/-- The bytes that the reader takes spell what it gives. -/
def Takes (r : ExceptT ε (StateM (List UInt8)) α) (L : List UInt8 → α → Prop) : Prop :=
  ∀ ⦃input a left⦄, r input = (.ok a, left) → ∃ bytes, input = bytes ++ left ∧ L bytes a

namespace Takes

variable {r : ExceptT ε (StateM (List UInt8)) α} {k : α → ExceptT ε (StateM (List UInt8)) β}
  {L L' : List UInt8 → α → Prop} {M : List UInt8 → β → Prop}

theorem pure {a : α} (h : L [] a) : Takes (Pure.pure a : ExceptT ε (StateM (List UInt8)) α) L := by
  intro input b left hrun
  cases hrun
  exact ⟨[], rfl, h⟩

theorem throw (e : ε) : Takes (throw e : ExceptT ε (StateM (List UInt8)) α) L := by
  intro input a left hrun
  cases hrun

theorem bind (h : Takes r L)
    (hk : ∀ bytes a, L bytes a → Takes (k a) fun rest b => M (bytes ++ rest) b) :
    Takes (r >>= k) M := by
  intro input b left hrun
  obtain ⟨a, mid, hr, hrest⟩ := run_bind_eq_ok hrun
  obtain ⟨first, rfl, ha⟩ := h hr
  obtain ⟨second, rfl, hb⟩ := hk first a ha hrest
  exact ⟨first ++ second, (List.append_assoc _ _ _).symm, hb⟩

/-- A last step that reads nothing. -/
theorem andThen {f : α → β} (h : Takes r L) (hf : ∀ bytes a, L bytes a → M bytes (f a)) :
    Takes (r >>= fun a => Pure.pure (f a)) M :=
  h.bind fun bytes a ha => .pure (by rw [List.append_nil]; exact hf bytes a ha)

theorem mono (h : Takes r L) (himp : ∀ bytes a, L bytes a → L' bytes a) : Takes r L' := by
  intro input a left hrun
  obtain ⟨bytes, hinput, ha⟩ := h hrun
  exact ⟨bytes, hinput, himp bytes a ha⟩

end Takes

namespace Reader

theorem bytes_takes (n : Nat) (short : StreamFault) :
    Takes (bytes n short) fun bytes data => bytes = data ∧ data.length = n := by
  intro input data left h
  obtain ⟨hinput, hlength⟩ := bytes_eq_ok h
  exact ⟨data, hinput, rfl, hlength⟩

theorem unsigned_takes (width : Nat) : Takes (unsigned width) fun bytes n =>
    n < BigEndian.capacity width ∧ bytes = BigEndian.toBytes width n := by
  refine (bytes_takes width .shortItem).andThen ?_
  rintro bytes _ ⟨rfl, rfl⟩
  exact ⟨BigEndian.ofBytes_lt bytes, (BigEndian.toBytes_ofBytes bytes).symm⟩

theorem uint8_takes : Takes uint8 fun bytes n => bytes = [n] := by
  refine (unsigned_takes 1).andThen ?_
  rintro _ n ⟨-, rfl⟩
  rfl

theorem i16_takes : Takes i16 fun bytes n => bytes = half n := by
  refine (unsigned_takes 2).andThen ?_
  rintro _ n ⟨hn, rfl⟩
  exact congrArg (BigEndian.toBytes 2) (UInt16.toNat_ofNat_of_lt hn).symm

theorem i32_takes : Takes i32 fun bytes n => bytes = word n := by
  refine (unsigned_takes 4).andThen ?_
  rintro _ n ⟨hn, rfl⟩
  exact congrArg (BigEndian.toBytes 4) (UInt32.toNat_ofNat_of_lt hn).symm

theorem size_takes : Takes size fun bytes n => bytes = word n ∧ 0 ≤ n := by
  refine i32_takes.bind fun bytes n hn => ?_
  split
  · exact .throw _
  · next hsign => exact .pure ⟨by rw [List.append_nil]; exact hn, Int32.not_lt.mp hsign⟩

/-- What is not negative is a count. -/
theorem ofNat_toNat_size {n : Int32} (h : 0 ≤ n) : Int32.ofNat n.toInt.toNat = n := by
  have hpos : 0 ≤ n.toInt := Int32.le_iff_toInt_le.mp h
  apply Int32.toInt_inj.mp
  rw [Int32.toInt_ofNat_of_lt]
  · exact Int.toNat_of_nonneg hpos
  · have hlt := n.toInt_lt
    omega

theorem binary_takes : Takes binary fun bytes data =>
    bytes = word (.ofNat data.length) ++ data ∧ data.length ≤ Writer.maxSize := by
  refine size_takes.bind fun bytes n hn => (bytes_takes _ .shortBytes).mono ?_
  rintro _ data ⟨rfl, hlength⟩
  rw [hlength, ofNat_toNat_size hn.2, hn.1]
  exact ⟨rfl, toNat_le_maxSize n⟩

/-- The bytes of a text are its encoding. -/
theorem text_takes (data : List UInt8) :
    Takes (text data) fun bytes t => bytes = [] ∧ data = Text.Utf8.encode t := by
  unfold text
  split
  · next t ht => exact .pure ⟨rfl, Text.Utf8.decode_eq_ok_iff.mp ht⟩
  · exact .throw _

theorem string_takes : Takes string fun bytes t =>
    bytes = sized t ∧ (Text.Utf8.encode t).length ≤ Writer.maxSize := by
  refine binary_takes.bind fun bytes data hdata => (text_takes data).mono ?_
  rintro _ t ⟨rfl, rfl⟩
  rw [List.append_nil]
  exact hdata

theorem code_of_ofCode? {n : UInt8} {w : WireType} (h : WireType.ofCode? n = some w) :
    w.code = n := by
  unfold WireType.ofCode? at h
  split at h <;> cases h <;> exact UInt8.toNat_inj.mp (Eq.symm ‹_›)

theorem kind_of_ofCode? {n : UInt8} {k : MessageKind} (h : MessageKind.ofCode? n = some k) :
    k.code = n := by
  unfold MessageKind.ofCode? at h
  split at h <;> cases h <;> exact UInt8.toNat_inj.mp (Eq.symm ‹_›)

theorem wireType_takes : Takes wireType fun bytes w => bytes = [w.code] := by
  refine uint8_takes.bind fun bytes code hcode => ?_
  split
  · next w hw => exact .pure (by rw [code_of_ofCode? hw, hcode]; rfl)
  · exact .throw _

/-- The stop stands alone; the index follows any other type. -/
theorem fieldHeader_takes : Takes fieldHeader fun bytes h =>
    (h.wireType = .stop ∧ bytes = [WireType.stop.code]) ∨
      (h.wireType ≠ .stop ∧ bytes = h.wireType.code :: half h.index) := by
  refine wireType_takes.bind fun bytes w hw => ?_
  split
  · next hstop => exact .pure (.inl ⟨hstop, by rw [hw, hstop]; rfl⟩)
  · next hstop =>
    refine i16_takes.andThen fun rest index hindex => .inr ⟨hstop, ?_⟩
    rw [hw, hindex]
    rfl

/-! ## Message headers -/

/-- A word with the version in its upper half. -/
theorem eq_of_strictVersion {word : UInt32} (h : word &&& 0xFFFF0000 = strictVersion) :
    word.toNat / 65536 = 0x8001 := by
  have hmask : word.toNat &&& 0xFFFF0000 = 0x80010000 := congrArg UInt32.toNat h
  have hupper : (word.toNat &&& 0xFFFF0000) >>> 16 = 0x8001 := by rw [hmask]; rfl
  have hlt := word.toNat_lt
  rw [Nat.shiftRight_and_distrib, Nat.shiftRight_eq_div_pow] at hupper
  have hmod : word.toNat / 65536 % 65536 = 0x8001 := by
    rw [← hupper]
    exact (Nat.and_two_pow_sub_one_eq_mod _ 16).symm
  omega

theorem word_eq (n : Int32) : word n =
    [.ofNat (n.toUInt32.toNat / 65536 / 256), .ofNat (n.toUInt32.toNat / 65536),
      .ofNat (n.toUInt32.toNat / 256), .ofNat n.toUInt32.toNat] := by
  unfold word
  simp only [BigEndian.toBytes, Nat.div_div_eq_div_mul, Nat.reduceMul, List.nil_append,
    List.cons_append]

/-- The third byte of the word may be any. -/
theorem exists_strictWord {n : Int32} (h : n.toUInt32 &&& 0xFFFF0000 = strictVersion) :
    ∃ unused, word n = [0x80, 0x01, unused, n.toUInt32.toUInt8] := by
  rw [word_eq, eq_of_strictVersion h]
  exact ⟨_, rfl⟩

/-- The name behind the version and the code of the kind, or in front of that code. -/
theorem messageName_takes : Takes messageName fun bytes p =>
    (Text.Utf8.encode p.1).length ≤ Writer.maxSize ∧
      ((∃ unused, bytes = [0x80, 0x01, unused, p.2] ++ sized p.1) ∨ bytes = sized p.1 ++ [p.2]) := by
  refine i32_takes.bind ?_
  rintro _ first rfl
  by_cases hsign : first < 0
  · simp only [if_pos hsign]
    by_cases hversion : first.toUInt32 &&& 0xFFFF0000 = strictVersion
    · obtain ⟨unused, hword⟩ := exists_strictWord hversion
      simp only [hversion, ne_eq, not_true_eq_false, if_false, hword]
      refine string_takes.andThen ?_
      rintro _ name ⟨rfl, hfits⟩
      exact ⟨hfits, .inl ⟨unused, rfl⟩⟩
    · simp only [hversion, ne_eq, not_false_eq_true, if_true]
      exact (Takes.throw (L := fun _ _ => False) _).bind fun _ _ h => h.elim
  · simp only [if_neg hsign]
    refine (bytes_takes _ .shortBytes).bind ?_
    rintro data _ ⟨rfl, hlength⟩
    refine (text_takes data).bind ?_
    rintro _ name ⟨rfl, rfl⟩
    refine uint8_takes.andThen ?_
    rintro _ code rfl
    have hsized : word first ++ Text.Utf8.encode name = sized name := by
      unfold sized
      rw [hlength, ofNat_toNat_size (Int32.not_lt.mp hsign)]
    refine ⟨hlength ▸ toNat_le_maxSize first, .inr ?_⟩
    rw [← hsized, List.nil_append, List.append_assoc]

theorem messageHeader_takes : Takes messageHeader fun bytes h => Layout h bytes := by
  refine messageName_takes.bind ?_
  rintro bytes ⟨name, code⟩ ⟨hfits, hlayout⟩
  dsimp only
  split
  · exact .throw _
  · next kind hkind =>
    obtain rfl := kind_of_ofCode? hkind
    refine i32_takes.andThen ?_
    rintro _ sequence rfl
    rcases hlayout with ⟨unused, rfl⟩ | rfl
    · rw [List.append_assoc]
      exact .strict (h := ⟨name, kind, sequence⟩) unused hfits
    · rw [List.append_assoc]
      exact .old (h := ⟨name, kind, sequence⟩) hfits

end Reader

end ThriftRpc.Wire
