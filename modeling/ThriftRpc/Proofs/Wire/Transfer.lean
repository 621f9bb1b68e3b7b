import ThriftRpc.Wire.Message

/-!
# Bytes that are written and read back

`Writes w bytes`: on an output without a bound, `w` appends `bytes` and nothing else. `Reads r
bytes a`: off any input that starts with `bytes`, `r` takes these and gives `a`. Both compose
along `++`, so the layers above never look at the state of a stream again. Each primitive of the
wire is written and read as the same bytes.
-/

namespace ThriftRpc.Wire

variable {ε ε' σ α β : Type}

theorem run_bind (m : ExceptT ε (StateM σ) α) (f : α → ExceptT ε (StateM σ) β) (s : σ) :
    (m >>= f) s = match m s with
      | (.ok a, s') => f a s'
      | (.error e, s') => (.error e, s') := by
  show StateT.bind m (ExceptT.bindCont f) s = _
  unfold StateT.bind
  cases m s with
  | mk answer s' => cases answer <;> rfl

/-- After a success the rest of the action runs. -/
theorem run_bind_ok {m : ExceptT ε (StateM σ) α} {f : α → ExceptT ε (StateM σ) β} {s s' : σ} {a : α}
    (h : m s = (.ok a, s')) : (m >>= f) s = f a s' := by
  rw [run_bind, h]

theorem run_bind_error {m : ExceptT ε (StateM σ) α} {f : α → ExceptT ε (StateM σ) β} {s s' : σ}
    {e : ε} (h : m s = (.error e, s')) : (m >>= f) s = (.error e, s') := by
  rw [run_bind, h]

/-- A success of a composed action is a success of each of its parts. -/
theorem run_bind_eq_ok {m : ExceptT ε (StateM σ) α} {f : α → ExceptT ε (StateM σ) β}
    {s s' : σ} {b : β} (h : (m >>= f) s = (.ok b, s')) :
    ∃ a mid, m s = (.ok a, mid) ∧ f a mid = (.ok b, s') := by
  rw [run_bind] at h
  split at h
  · next a mid hm => exact ⟨a, mid, hm, h⟩
  · cases h

/-- A fault is handled where it left the state. -/
theorem run_tryCatch (m : ExceptT ε (StateM σ) α) (handle : ε → ExceptT ε (StateM σ) α) (s : σ) :
    tryCatch m handle s = match m s with
      | (.ok a, s') => (.ok a, s')
      | (.error e, s') => handle e s' := by
  show ExceptT.tryCatch m handle s = _
  unfold ExceptT.tryCatch ExceptT.mk
  simp only [bind, StateT.bind]
  cases m s with
  | mk answer s' => cases answer <;> rfl

theorem run_adapt (f : ε → ε') (m : ExceptT ε (StateM σ) α) (s : σ) :
    ExceptT.adapt f m s = ((m s).1.mapError f, (m s).2) := rfl

theorem run_adapt_eq_ok {m : ExceptT ε (StateM σ) α} {e : ε → ε'} {s s' : σ} {a : α}
    (h : ExceptT.adapt e m s = (.ok a, s')) : m s = (.ok a, s') := by
  rw [run_adapt] at h
  generalize m s = p at h ⊢
  obtain ⟨answer, left⟩ := p
  cases answer with
  | error fault => cases h
  | ok x => cases h; rfl

/-! ## Writing and reading -/

def Writes (w : ExceptT ε (StateM Output) Unit) (bytes : List UInt8) : Prop :=
  ∀ out : Output, out.room = none → w out = (.ok (), { out with sent := out.sent ++ bytes })

namespace Writes

theorem pure : Writes (Pure.pure () : ExceptT ε (StateM Output) Unit) [] := by
  intro out _
  show (_, _) = _
  simp

theorem bind {w : ExceptT ε (StateM Output) Unit} {k : Unit → ExceptT ε (StateM Output) Unit}
    {b c : List UInt8} (hw : Writes w b) (hk : Writes (k ()) c) : Writes (w >>= k) (b ++ c) := by
  intro out hout
  rw [run_bind, hw out hout, ← List.append_assoc]
  exact hk { out with sent := out.sent ++ b } hout

theorem adapt {w : ExceptT ε (StateM Output) Unit} {b : List UInt8} (f : ε → ε')
    (hw : Writes w b) : Writes (ExceptT.adapt f w) b := by
  intro out hout
  rw [run_adapt, hw out hout]
  rfl

/-- What is written is determined. -/
theorem unique {w : ExceptT ε (StateM Output) Unit} {b c : List UInt8} (hb : Writes w b)
    (hc : Writes w c) : b = c := by
  have h := (hb {} rfl).symm.trans (hc {} rfl)
  exact congrArg (fun p => p.2.sent) h

end Writes

def Reads (r : ExceptT ε (StateM (List UInt8)) α) (bytes : List UInt8) (a : α) : Prop :=
  ∀ rest, r (bytes ++ rest) = (.ok a, rest)

namespace Reads

theorem pure (a : α) : Reads (Pure.pure a : ExceptT ε (StateM (List UInt8)) α) [] a :=
  fun _ => rfl

theorem bind {r : ExceptT ε (StateM (List UInt8)) α}
    {k : α → ExceptT ε (StateM (List UInt8)) β} {b c : List UInt8} {a : α} {x : β}
    (hr : Reads r b a) (hk : Reads (k a) c x) : Reads (r >>= k) (b ++ c) x := by
  intro rest
  rw [run_bind, List.append_assoc, hr (c ++ rest)]
  exact hk rest

/-- A last step that reads nothing. -/
theorem andThen {r : ExceptT ε (StateM (List UInt8)) α}
    {k : α → ExceptT ε (StateM (List UInt8)) β} {b : List UInt8} {a : α} {x : β}
    (hr : Reads r b a) (hk : Reads (k a) [] x) : Reads (r >>= k) b x := by
  simpa using hr.bind hk

theorem map {r : ExceptT ε (StateM (List UInt8)) α} {b : List UInt8} {a : α} (f : α → β)
    (hr : Reads r b a) : Reads (f <$> r) b (f a) := by
  rw [map_eq_pure_bind]
  exact hr.andThen (Reads.pure _)

theorem discard {r : ExceptT ε (StateM (List UInt8)) α} {b : List UInt8} {a : α}
    (hr : Reads r b a) : Reads (discard r) b () := hr.map _

theorem adapt {r : ExceptT ε (StateM (List UInt8)) α} {b : List UInt8} {a : α} (f : ε → ε')
    (hr : Reads r b a) : Reads (ExceptT.adapt f r) b a := by
  intro rest
  rw [run_adapt, hr rest]
  rfl

end Reads

section Carried

variable {w : ExceptT ε (StateM Output) Unit} {r : ExceptT ε' (StateM (List UInt8)) α} {a : α}

/-- What `w` writes, `r` reads back as `a`, whatever follows it. -/
def Carried (w : ExceptT ε (StateM Output) Unit) (r : ExceptT ε' (StateM (List UInt8)) α)
    (a : α) : Prop :=
  ∃ bytes, Writes w bytes ∧ Reads r bytes a

namespace Carried

theorem reads {bytes : List UInt8} (h : Carried w r a) (hw : Writes w bytes) : Reads r bytes a := by
  obtain ⟨b, hb, hr⟩ := h
  cases hb.unique hw
  exact hr

theorem pure (a : α) : Carried (Pure.pure () : ExceptT ε (StateM Output) Unit)
    (Pure.pure a : ExceptT ε' (StateM (List UInt8)) α) a :=
  ⟨[], Writes.pure, Reads.pure a⟩

theorem bind {k : Unit → ExceptT ε (StateM Output) Unit}
    {l : α → ExceptT ε' (StateM (List UInt8)) β} {x : β} (h : Carried w r a)
    (hk : Carried (k ()) (l a) x) : Carried (w >>= k) (r >>= l) x := by
  obtain ⟨b, hw, hr⟩ := h
  obtain ⟨c, hk, hl⟩ := hk
  exact ⟨b ++ c, hw.bind hk, hr.bind hl⟩

/-- The reader ends with steps that read nothing. -/
theorem andThen {l : α → ExceptT ε' (StateM (List UInt8)) β} {x : β} (h : Carried w r a)
    (hl : Reads (l a) [] x) : Carried w (r >>= l) x := by
  obtain ⟨b, hw, hr⟩ := h
  exact ⟨b, hw, hr.andThen hl⟩

theorem map (f : α → β) (h : Carried w r a) : Carried w (f <$> r) (f a) := by
  obtain ⟨b, hw, hr⟩ := h
  exact ⟨b, hw, hr.map f⟩

theorem adapt {δ δ' : Type} (f : ε → δ) (g : ε' → δ') (h : Carried w r a) :
    Carried (ExceptT.adapt f w) (ExceptT.adapt g r) a := by
  obtain ⟨b, hw, hr⟩ := h
  exact ⟨b, hw.adapt f, hr.adapt g⟩

/-- The reader drops what it read. -/
theorem discard (h : Carried w r a) : Carried w (discard r) () := h.map _

end Carried

end Carried

/-! ## Numbers -/

theorem Writer.writes_bytes (data : List UInt8) : Writes (Writer.bytes data) data := by
  intro out hout
  obtain ⟨sent, _ | room, flushed⟩ := out
  · rfl
  · cases hout

theorem Reader.run_bytes (n : Nat) (short : StreamFault) (input : List UInt8) :
    Reader.bytes n short input =
      (splitFirst? n input).elim (.error (.stream short), []) fun p => (.ok p.1, p.2) := by
  have hget : (get : Reader (List UInt8)) input = (.ok input, input) := rfl
  unfold Reader.bytes
  rw [run_bind_ok hget]
  cases splitFirst? n input <;> rfl

theorem Reader.reads_bytes (data : List UInt8) (short : StreamFault) :
    Reads (Reader.bytes data.length short) data data := by
  intro rest
  rw [Reader.run_bytes, splitFirst?_append]
  rfl

theorem Reader.bytes_eq_ok {n : Nat} {short : StreamFault} {input data left : List UInt8}
    (h : Reader.bytes n short input = (.ok data, left)) :
    input = data ++ left ∧ data.length = n := by
  rw [Reader.run_bytes] at h
  cases hsplit : splitFirst? n input with
  | none =>
    rw [hsplit] at h
    cases h
  | some p =>
    rw [hsplit] at h
    cases h
    exact eq_append_of_splitFirst? hsplit

/-- A count that fits a header is read back as it is. -/
theorem toInt_ofNat_size {n : Nat} (h : n ≤ Writer.maxSize) :
    0 ≤ Int32.ofNat n ∧ (Int32.ofNat n).toInt.toNat = n := by
  have hn : n ≤ 0x7FFFFFFF := h
  have hi : (Int32.ofNat n).toInt = n := Int32.toInt_ofNat_of_lt (by omega)
  rw [Int32.le_iff_toInt_le, hi]
  simp

namespace Carried

theorem unsigned {width n : Nat} (h : n < BigEndian.capacity width) :
    Carried (Writer.unsigned width n) (Reader.unsigned width) n := by
  refine ⟨BigEndian.toBytes width n, Writer.writes_bytes _, ?_⟩
  have hb := Reader.reads_bytes (BigEndian.toBytes width n) .shortItem
  rw [BigEndian.length_toBytes] at hb
  refine hb.andThen ?_
  rw [BigEndian.ofBytes_toBytes h]
  exact Reads.pure n

theorem uint8 (n : UInt8) : Carried (Writer.uint8 n) Reader.uint8 n := by
  refine (unsigned n.toNat_lt).andThen ?_
  rw [UInt8.ofNat_toNat]
  exact Reads.pure n

theorem bool (b : Bool) : Carried (Writer.bool b) Reader.bool b :=
  (uint8 _).andThen (by cases b <;> exact Reads.pure _)

theorem byte (n : Int8) : Carried (Writer.byte n) Reader.byte n :=
  (uint8 _).andThen (Reads.pure n)

theorem i16 (n : Int16) : Carried (Writer.i16 n) Reader.i16 n := by
  refine (unsigned n.toUInt16.toNat_lt).andThen ?_
  rw [UInt16.ofNat_toNat]
  exact Reads.pure n

theorem i32 (n : Int32) : Carried (Writer.i32 n) Reader.i32 n := by
  refine (unsigned n.toUInt32.toNat_lt).andThen ?_
  rw [UInt32.ofNat_toNat]
  exact Reads.pure n

theorem i64 (n : Int64) : Carried (Writer.i64 n) Reader.i64 n := by
  refine (unsigned n.toUInt64.toNat_lt).andThen ?_
  rw [UInt64.ofNat_toNat]
  exact Reads.pure n

theorem double (x : Double) : Carried (Writer.double x) Reader.double x := by
  refine (unsigned x.bits.toNat_lt).andThen ?_
  rw [UInt64.ofNat_toNat]
  exact Reads.pure x

theorem size {n : Int32} (h : 0 ≤ n) : Carried (Writer.i32 n) Reader.size n := by
  refine (i32 n).andThen ?_
  rw [if_neg (Int32.not_lt.mpr h)]
  exact Reads.pure n

theorem binary {data : List UInt8} (h : data.length ≤ Writer.maxSize) :
    Carried (Writer.binary data) Reader.binary data := by
  unfold Writer.binary
  rw [if_neg (Nat.not_lt.mpr h)]
  refine bind (size (toInt_ofNat_size h).1) ⟨data, Writer.writes_bytes data, ?_⟩
  rw [(toInt_ofNat_size h).2]
  exact Reader.reads_bytes data .shortBytes

theorem string {s : String} (h : (Text.Utf8.encode s).length ≤ Writer.maxSize) :
    Carried (Writer.string s) Reader.string s := by
  refine (binary h).andThen ?_
  unfold Reader.text
  rw [Text.Utf8.decode_encode]
  exact Reads.pure s

theorem wireType (w : WireType) : Carried (Writer.wireType w) Reader.wireType w := by
  refine (uint8 w.code).andThen ?_
  rw [WireType.ofCode?_code]
  exact Reads.pure w

theorem fieldHeader {h : FieldHeader} (hstop : h.wireType ≠ .stop) :
    Carried (Writer.fieldHeader h) Reader.fieldHeader h := by
  refine (wireType h.wireType).bind ?_
  rw [if_neg hstop]
  exact (i16 h.index).andThen (Reads.pure h)

theorem fieldStop : Carried Writer.fieldStop Reader.fieldHeader ⟨.stop, 0⟩ :=
  (wireType .stop).andThen (Reads.pure _)

theorem listHeader {h : ListHeader} (hsize : 0 ≤ h.size) :
    Carried (Writer.listHeader h) Reader.listHeader h :=
  (wireType h.element).bind ((size hsize).andThen (Reads.pure h))

theorem mapHeader {h : MapHeader} (hsize : 0 ≤ h.size) :
    Carried (Writer.mapHeader h) Reader.mapHeader h :=
  (wireType h.key).bind ((wireType h.value).bind ((size hsize).andThen (Reads.pure h)))

end Carried

/-- A header has at least a byte. -/
theorem fieldHeader_ne_nil {bytes : List UInt8} {h : FieldHeader}
    (hr : Reads Reader.fieldHeader bytes h) : bytes ≠ [] := by
  rintro rfl
  have hnil := hr []
  cases hnil

/-- Fuel for as many steps as there are bytes is enough to go on behind a header. -/
theorem exists_fuel {header rest : List UInt8} {h : FieldHeader} {fuel : Nat}
    (hr : Reads Reader.fieldHeader header h) (hfuel : (header ++ rest).length ≤ fuel) :
    ∃ k, fuel = k + 1 ∧ rest.length ≤ k := by
  have hpos : 0 < header.length := List.length_pos_iff.mpr (fieldHeader_ne_nil hr)
  rw [List.length_append] at hfuel
  exact ⟨fuel - 1, by omega, by omega⟩

end ThriftRpc.Wire
