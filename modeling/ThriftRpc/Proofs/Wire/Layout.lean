import ThriftRpc.Proofs.Wire.Transfer

/-!
# Layouts of message headers

The bytes of a header in either layout (`Layout`). Both are read as the header, and the strict one
is what is written.
-/

namespace ThriftRpc.Wire

/-- The four bytes of an integer. -/
def word (n : Int32) : List UInt8 := BigEndian.toBytes 4 n.toUInt32.toNat

/-- The bytes of a text behind their count. -/
def sized (text : String) : List UInt8 :=
  word (.ofNat (Text.Utf8.encode text).length) ++ Text.Utf8.encode text

/-- The bytes of a header. The third byte of the strict layout has no meaning. -/
inductive Layout (h : MessageHeader) : List UInt8 → Prop
  | strict (unused : UInt8) : (Text.Utf8.encode h.name).length ≤ Writer.maxSize →
    Layout h ([0x80, 0x01, unused, h.kind.code] ++ (sized h.name ++ word h.sequence))
  | old : (Text.Utf8.encode h.name).length ≤ Writer.maxSize →
    Layout h (sized h.name ++ ([h.kind.code] ++ word h.sequence))

theorem Writer.writes_word (n : Int32) : Writes (Writer.i32 n) (word n) := Writer.writes_bytes _

theorem Reader.reads_word (n : Int32) : Reads Reader.i32 (word n) n :=
  (Carried.i32 n).reads (Writer.writes_word n)

theorem Reader.reads_uint8 (n : UInt8) : Reads Reader.uint8 [n] n := by
  intro rest
  show (Except.ok (UInt8.ofNat (BigEndian.ofBytes [n])), rest) = _
  simp [BigEndian.ofBytes]

theorem Writer.writes_binary {data : List UInt8} (h : data.length ≤ Writer.maxSize) :
    Writes (Writer.binary data) (word (.ofNat data.length) ++ data) := by
  unfold Writer.binary
  rw [if_neg (Nat.not_lt.mpr h)]
  exact (Writer.writes_word _).bind (Writer.writes_bytes _)

section Texts

variable {text : String} (h : (Text.Utf8.encode text).length ≤ Writer.maxSize)
include h

theorem Writer.writes_sized : Writes (Writer.string text) (sized text) := Writer.writes_binary h

theorem Reader.reads_sized : Reads Reader.string (sized text) text :=
  (Carried.string h).reads (Writer.writes_sized h)

end Texts

/-- The first word with any third byte. -/
def strictWord (unused : UInt8) (k : MessageKind) : Int32 :=
  (UInt32.ofNat (BigEndian.ofBytes [0x80, 0x01, unused, k.code])).toInt32

theorem reads_strictWord (unused : UInt8) (k : MessageKind) :
    Reads Reader.i32 [0x80, 0x01, unused, k.code] (strictWord unused k) := by
  have hbytes := Reader.reads_bytes [0x80, 0x01, unused, k.code] .shortItem
  have hnumber : Reads (Reader.unsigned 4) [0x80, 0x01, unused, k.code]
      (BigEndian.ofBytes [0x80, 0x01, unused, k.code]) :=
    hbytes.andThen (Reads.pure _)
  exact hnumber.andThen (Reads.pure _)

theorem strictWord_parts (unused : UInt8) (k : MessageKind) :
    strictWord unused k < 0 ∧ (strictWord unused k).toUInt32 &&& 0xFFFF0000 = strictVersion ∧
      (strictWord unused k).toUInt32.toUInt8 = k.code := by
  have hall : ∀ n < 256, ∀ k ∈ [MessageKind.call, .reply, .exception, .oneway],
      strictWord (.ofNat n) k < 0 ∧
        (strictWord (.ofNat n) k).toUInt32 &&& 0xFFFF0000 = strictVersion ∧
        (strictWord (.ofNat n) k).toUInt32.toUInt8 = k.code := by
    decide +kernel
  have hparts := hall unused.toNat unused.toNat_lt k (by cases k <;> simp)
  rwa [UInt8.ofNat_toNat] at hparts

theorem writes_strictWord (k : MessageKind) :
    Writes (Writer.i32 (strictVersion ||| k.code.toUInt32).toInt32) [0x80, 0x01, 0x00, k.code] := by
  have hword : word (strictVersion ||| k.code.toUInt32).toInt32 = [0x80, 0x01, 0x00, k.code] := by
    cases k <;> decide
  rw [← hword]
  exact Writer.writes_word _

variable {h : MessageHeader}

theorem Writer.writes_header (hname : (Text.Utf8.encode h.name).length ≤ Writer.maxSize) :
    ∃ bytes, Layout h bytes ∧ Writes (Writer.messageHeader h) bytes :=
  ⟨_, .strict 0 hname,
    (writes_strictWord h.kind).bind ((Writer.writes_sized hname).bind (Writer.writes_word _))⟩

/-! ## Reading -/

namespace Layout

variable {bytes : List UInt8}

/-- In either layout the sequence id comes last. -/
theorem exists_name (hlayout : Layout h bytes) : ∃ front, bytes = front ++ word h.sequence ∧
    Reads Reader.messageName front (h.name, h.kind.code) := by
  cases hlayout with
  | strict unused hname =>
    obtain ⟨hneg, hversion, hcode⟩ := strictWord_parts unused h.kind
    refine ⟨_, (List.append_assoc _ _ _).symm, (reads_strictWord unused h.kind).bind ?_⟩
    rw [if_pos hneg]
    simp only [hversion, ne_eq, not_true_eq_false, if_false, hcode]
    exact (Reader.reads_sized hname).andThen (Reads.pure _)
  | old hname =>
    obtain ⟨hpos, hcount⟩ := toInt_ofNat_size hname
    refine ⟨_, (List.append_assoc _ _ _).symm, ?_⟩
    unfold sized
    rw [List.append_assoc]
    refine (Reader.reads_word _).bind ?_
    rw [if_neg (Int32.not_lt.mpr hpos), hcount]
    refine (Reader.reads_bytes _ .shortBytes).bind ?_
    unfold Reader.text
    rw [Text.Utf8.decode_encode]
    exact (Reader.reads_uint8 h.kind.code).andThen (Reads.pure _)

theorem reads (hlayout : Layout h bytes) : Reads Reader.messageHeader bytes h := by
  obtain ⟨front, rfl, hname⟩ := hlayout.exists_name
  refine hname.bind ?_
  simp only [MessageKind.ofCode?_code]
  exact (Reader.reads_word h.sequence).andThen (Reads.pure h)

theorem name_fits (hlayout : Layout h bytes) :
    (Text.Utf8.encode h.name).length ≤ Writer.maxSize := by
  cases hlayout with
  | strict unused hname => exact hname
  | old hname => exact hname

/-- A header has at least a byte. -/
theorem ne_nil (hlayout : Layout h bytes) : bytes ≠ [] := by
  rintro rfl
  have hnil := hlayout.reads []
  cases hnil

end Layout

end ThriftRpc.Wire
