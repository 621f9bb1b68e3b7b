import ThriftRpc.Proofs.Codec.RoundTrip
import ThriftRpc.Proofs.Codec.Total

/-!
# Texts in both directions

Texts and scalars turn into one another in two places: a value is prepared before it is written, and
what the wire announces as another type is coerced when it is read. Both agree (`coercions_agree`).
A text that arrives is taken for what `prepare` makes of it (`ofText`), and a scalar that arrives
where a text is expected becomes the text that `prepare` makes of it (`Value.text?`).
-/

namespace ThriftRpc.Codec

open Wire

variable {s : Schema} {ty : Ty} {shape : Shape} {text : String} {bytes : List UInt8}

theorem asPrimitive_string (p : Primitive) (text : String) :
    asPrimitive p (.string text) = ofText (.prim p) text := by
  cases p <;> rfl

/-- What a text is prepared into, or the mismatch. -/
theorem prepare_string (hr : resolve s ty = .ok shape) (text : String) :
    ∃ expected, prepare s ty (.string text) = match ofText shape text with
      | some x => .ok x
      | none => .error (.mismatch expected "string") := by
  have hmismatch (o : Option Value) : orMismatch ty (.string text) o = match o with
      | some x => .ok x
      | none => .error (.mismatch ty.text "string") := by
    cases o <;> rfl
  unfold prepare
  rw [hr]
  cases shape with
  | prim p => exact ⟨ty.text, asPrimitive_string p text ▸ hmismatch _⟩
  | enum d => exact ⟨ty.text, hmismatch _⟩
  | struct d => exact ⟨d.name, rfl⟩
  | list elem => exact ⟨ty.text, rfl⟩
  | set elem => exact ⟨ty.text, rfl⟩
  | map key value => exact ⟨ty.text, rfl⟩

theorem prim_of_wireType_string (h : shape.wireType = .string) :
    shape = .prim .string ∨ shape = .prim .binary := by
  cases shape with
  | prim p =>
    cases p with
    | string => exact .inl rfl
    | binary => exact .inr rfl
    | _ => cases h
  | _ => cases h

/-- A text is consumed whole, whatever it is taken for. -/
theorem readWithin_text (hlen : (Text.Utf8.encode text).length ≤ Writer.maxSize)
    (hw : Writes (Writer.string text) bytes) (hr : resolve s ty = .ok shape) (n : Nat) :
    Reads (readWithin s n ty .string) bytes (ofText shape text) := by
  have hbinary : Reads Reader.binary bytes (Text.Utf8.encode text) := (Carried.binary hlen).reads hw
  by_cases hshape : shape.wireType = .string
  · rw [← hshape, readWithin_of_resolve hr]
    rcases prim_of_wireType_string hshape with rfl | rfl
    · exact ((((Carried.string hlen).reads hw).map Value.string).adapt Fault.wire).map some
    · exact ((hbinary.map Value.binary).adapt Fault.wire).map some
  · rw [readWithin_eq]
    unfold readCoerced
    rw [if_neg (by decide), hr]
    show Reads (if shape.wireType = .string then _ else _) bytes _
    rw [if_neg hshape, if_neg hshape]
    refine (hbinary.adapt Fault.wire).andThen ?_
    rw [Text.Utf8.decode_encode]
    exact Reads.pure _

/-- A type that does not resolve fails before anything is read. -/
theorem readWithin_unresolved {fault : Fault} {w : WireType} (hstop : w ≠ .stop)
    (hr : resolve s ty = .error fault) (n : Nat) (input : List UInt8) :
    readWithin s n ty w input = (.error fault, input) := by
  rw [readWithin_eq]
  unfold readCoerced
  rw [if_neg hstop, hr]
  rfl

variable {p : Primitive} {v : Value}

/-- What carries a scalar carries its text. -/
theorem rendered {α : Type} {w : Writer Unit} {r : Reader α} {a : α} (render : α → String)
    (h : Carried w r a) :
    Carried (w : Writing Unit)
      ((do return some (render (← r)) : Reader (Option String)) : Reading (Option String))
      (some (render a)) :=
  .adapt Fault.wire Fault.wire (h.andThen (Reads.pure _))

theorem readAsText_carried (ty : Ty) (h : p.Holds v) (hp : p.wireType ≠ .string) :
    ∃ text, v.text? = some text ∧
      Carried (writePrimitive ty p v) (readAsText p.wireType : Reading (Option String))
        (some text) := by
  cases h with
  | bool b => exact ⟨_, rfl, rendered Value.boolText (.bool b)⟩
  | byte n => exact ⟨_, rfl, rendered (fun n : Int8 => toString n.toInt) (.byte n)⟩
  | i16 n => exact ⟨_, rfl, rendered (fun n : Int16 => toString n.toInt) (.i16 n)⟩
  | i32 n => exact ⟨_, rfl, rendered (fun n : Int32 => toString n.toInt) (.i32 n)⟩
  | i64 n => exact ⟨_, rfl, rendered (fun n : Int64 => toString n.toInt) (.i64 n)⟩
  | double x => exact ⟨_, rfl, rendered (Double.render Value.numberLayout) (.double x)⟩
  | string text => exact absurd rfl hp
  | binary bytes => exact absurd rfl hp

/-- A scalar that is no text is prepared into its text. -/
theorem prepare_as_string (hr : resolve s ty = .ok (.prim .string)) (h : p.Holds v)
    (hp : p.wireType ≠ .string) (htext : v.text? = some text) :
    prepare s ty v = .ok (.string text) := by
  have has : asPrimitive .string v = v.text?.map .string := by
    cases h with
    | binary bytes => exact absurd rfl hp
    | _ => rfl
  unfold prepare
  rw [hr]
  show orMismatch ty v (asPrimitive .string v) = _
  rw [has, htext]
  rfl

theorem readWithin_scalar (hr : resolve s ty = .ok (.prim .string)) (h : p.Holds v)
    (hp : p.wireType ≠ .string) (n : Nat) :
    ∃ text, v.text? = some text ∧
      Carried (write s (.prim p) v) (readWithin s n ty p.wireType) (some (.string text)) := by
  obtain ⟨text, htext, hread⟩ := readAsText_carried (.prim p) h hp
  refine ⟨text, htext, ?_⟩
  have hwrite : write s (.prim p) v = writePrimitive (.prim p) p v := by
    unfold write
    rfl
  rw [hwrite, readWithin_eq]
  unfold readCoerced
  have hstop : p.wireType ≠ .stop := wireType_ne_stop (.prim p)
  rw [if_neg hstop, hr]
  show Carried _ (if WireType.string = p.wireType then _ else _) _
  rw [if_neg (Ne.symm hp)]
  exact hread.andThen (Reads.pure _)

/-! ## Both directions -/

/-- A text that arrives where `ty` is expected gives what `prepare` makes of it, is absent exactly
if `prepare` finds a mismatch, and fails exactly if the type is unknown, which shows before a byte
is read. A scalar that arrives where a text is expected gives the text that `prepare` makes of
it. What gives an answer consumes the value and no more. -/
theorem coercions_agree (s : Schema) :
    (∀ ty text, (Text.Utf8.encode text).length ≤ Writer.maxSize →
      ∃ bytes, Writes (Writer.string text) bytes ∧ ∀ rest,
        let read := decode s ty .string (bytes ++ rest)
        let prepared := prepare s ty (.string text)
        (∀ x, read.1 = .ok (some x) ↔ prepared = .ok x) ∧
          (read.1 = .ok none ↔ ∃ expected found, prepared = .error (.mismatch expected found)) ∧
          (∀ name, read.1 = .error (.unknownType name) ↔
            prepared = .error (.unknownType name)) ∧
          (∀ answer, read.1 = .ok answer → read.2 = rest) ∧
          ∀ fault, read.1 = .error fault →
            (∃ name, fault = .unknownType name) ∧ read.2 = bytes ++ rest) ∧
    ∀ p v, p.Holds v → p.wireType ≠ .string →
      ∃ bytes x, Writes (write s (.prim p) v) bytes ∧ prepare s (.prim .string) v = .ok x ∧
        ∀ rest, decode s (.prim .string) p.wireType (bytes ++ rest) = (.ok (some x), rest) := by
  refine ⟨fun ty text hlen => ?_, fun p v h hp => ?_⟩
  · obtain ⟨bytes, hw, -⟩ := Carried.string hlen
    refine ⟨bytes, hw, fun rest => ?_⟩
    cases hr : resolve s ty with
    | error fault =>
      obtain ⟨name, rfl⟩ := resolve_eq_error hr
      have hread : decode s ty .string (bytes ++ rest) =
          (.error (.unknownType name), bytes ++ rest) :=
        readWithin_unresolved (by decide) hr depthLimit _
      have hprepared : prepare s ty (.string text) = .error (.unknownType name) := by
        unfold prepare
        rw [hr]
        rfl
      rw [hread, hprepared]
      refine ⟨by simp, by simp, by simp, ?_, fun _ h => ⟨⟨name, (Except.error.inj h).symm⟩, rfl⟩⟩
      rintro _ ⟨⟩
    | ok shape =>
      have hread : decode s ty .string (bytes ++ rest) = (.ok (ofText shape text), rest) :=
        readWithin_text hlen hw hr depthLimit rest
      obtain ⟨expected, hprepared⟩ := prepare_string hr text
      rw [hread, hprepared]
      cases ofText shape text with
      | none => exact ⟨by simp, by simp, by simp, fun _ _ => rfl, by rintro _ ⟨⟩⟩
      | some x => exact ⟨by simp, by simp, by simp, fun _ _ => rfl, by rintro _ ⟨⟩⟩
  · have hr : resolve s (.prim .string) = .ok (.prim .string) := rfl
    obtain ⟨text, htext, bytes, hw, hread⟩ := readWithin_scalar hr h hp depthLimit
    exact ⟨bytes, .string text, hw, prepare_as_string hr h hp htext, hread⟩

/-- A text that gives a member by its code, one that gives none, and a number where a text is
expected. -/
theorem coercions_agree_colour :
    (∃ bytes, Writes (Writer.string " 1 ") bytes ∧
        (decode pointSchema (.named "Colour") .string (bytes ++ [7])).1 =
          .ok (some (.enum "Colour" "green")) ∧
        (decode pointSchema (.named "Colour") .string (bytes ++ [7])).2 = [7]) ∧
      (∃ bytes, Writes (Writer.string "blue") bytes ∧
        (decode pointSchema (.named "Colour") .string (bytes ++ [7])).1 = .ok none) ∧
      ∃ bytes, Writes (write pointSchema (.prim .i16) (.i16 (-5))) bytes ∧
        decode pointSchema (.prim .string) .i16 (bytes ++ [7]) =
          (.ok (some (.string "-5")), [7]) := by
  obtain ⟨htexts, hscalars⟩ := coercions_agree pointSchema
  refine ⟨?_, ?_, ?_⟩
  · obtain ⟨bytes, hw, hread⟩ := htexts (.named "Colour") " 1 " (by decide)
    obtain ⟨hsome, -, -, hrest, -⟩ := hread [7]
    have hgreen := (hsome (.enum "Colour" "green")).mpr rfl
    exact ⟨bytes, hw, hgreen, hrest _ hgreen⟩
  · obtain ⟨bytes, hw, hread⟩ := htexts (.named "Colour") "blue" (by decide)
    obtain ⟨-, hnone, -⟩ := hread [7]
    exact ⟨bytes, hw, hnone.mpr ⟨_, _, rfl⟩⟩
  · obtain ⟨bytes, x, hw, hprepared, hread⟩ := hscalars .i16 (.i16 (-5)) (.i16 _) (by decide)
    have htext : prepare pointSchema (.prim .string) (.i16 (-5)) = .ok (.string "-5") := rfl
    cases hprepared.symm.trans htext
    exact ⟨bytes, hw, hread [7]⟩

end ThriftRpc.Codec
