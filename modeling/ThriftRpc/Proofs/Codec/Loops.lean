import ThriftRpc.Proofs.Codec.Local
import ThriftRpc.Proofs.Codec.ReadBack
import ThriftRpc.Proofs.Ends
import ThriftRpc.Proofs.Wire.Idle

/-!
# Loops of decoding

A loop over the fields of a struct is not announced: it ends because the header of each field takes a
byte (`readFields_ends`, `skipFields_ends`). A loop over elements runs as often as its header
announces; elements without bytes are all read alike, so that it may as well run once (`rounds_eq`).
-/

namespace ThriftRpc

open Wire

namespace Wire.Reader

/-- One round of the loop that skips the fields of a struct. -/
def skipField (skip : WireType → Reader Unit) (next : Reader Unit) : Reader Unit := do
  let header ← fieldHeader
  if header.wireType = .stop then return
  skip header.wireType
  next

theorem skipFields_ends {skip : WireType → Reader Unit} (h : ∀ w, Local (skip w))
    (input : List UInt8) : Ends (skipField skip) (fun loop => loop input)
      (skipFields skip (input.length + 1) input) := by
  have hdecreases : Decreases (skipField skip) (fun input loop => loop input) (fun _ => True)
      List.length := by
    intro f g input _ hnext
    show skipField skip f input = skipField skip g input
    unfold skipField
    simp only [run_bind]
    split
    · next header mid hheader =>
      have hlt := fieldHeader_length_lt hheader
      by_cases hstop : header.wireType = .stop
      · simp only [if_pos hstop]
      · simp only [if_neg hstop, run_bind]
        split
        · next u left hskip =>
          exact hnext left trivial
            (Nat.lt_of_le_of_lt ((h header.wireType).length_le hskip) hlt)
        · rfl
    · rfl
  exact hdecreases.ends (skipFields skip) (fun _ => rfl) trivial (Nat.lt_succ_self _)

end Wire.Reader

namespace Codec

/-- One round of the loop that reads the fields of a struct. -/
def readField (d : StructDef) (value : ValueReader)
    (next : Table String Value → Reading (Table String Value)) (done : Table String Value) :
    Reading (Table String Value) := do
  let header : FieldHeader ← Reader.fieldHeader
  if header.wireType = .stop then return done
  match d.field? header.index with
  | some f =>
    match ← value f.type header.wireType with
    | some v => next (done.insert f.name v)
    | none => next done
  | none =>
    Reader.skip header.wireType
    next done

theorem readFields_ends {value : ValueReader} (h : LocalEach value) (d : StructDef)
    (done : Table String Value) (input : List UInt8) :
    Ends (readField d value) (fun loop => loop done input)
      (readFields d value (input.length + 1) done input) := by
  have hdecreases : Decreases (readField d value)
      (fun (at? : Table String Value × List UInt8) loop => loop at?.1 at?.2) (fun _ => True)
      fun at? => at?.2.length := by
    rintro f g ⟨done, input⟩ - hnext
    show readField d value f done input = readField d value g done input
    unfold readField
    simp only [run_bind]
    split
    · next header mid hheader =>
      have hlt := Reader.fieldHeader_length_lt (run_adapt_eq_ok hheader)
      by_cases hstop : header.wireType = .stop
      · simp only [if_pos hstop]
      · simp only [if_neg hstop]
        cases d.field? header.index with
        | none =>
          simp only [run_bind]
          split
          · next u left hskip =>
            have hle := ((Reader.skipWithin_local _ _).adapt Fault.wire).length_le hskip
            exact hnext (done, left) trivial (Nat.lt_of_le_of_lt hle hlt)
          · rfl
        | some field =>
          simp only [run_bind]
          split
          · next o left hvalue =>
            have hle := (h field.type header.wireType).length_le hvalue
            cases o with
            | none => exact hnext (done, left) trivial (Nat.lt_of_le_of_lt hle hlt)
            | some v =>
              exact hnext (done.insert field.name v, left) trivial (Nat.lt_of_le_of_lt hle hlt)
          · rfl
    · rfl
  exact hdecreases.ends (readFields d value) (fun _ => rfl) (a := (done, input)) trivial
    (Nat.lt_succ_self _)

end Codec

namespace Codec

theorem readPresent_idle {α : Type} {read : Reading (Option α)} (h : Idle read none) (n : Nat) :
    readPresent (n + 1) read = readPresent 1 read := by
  induction n with
  | zero => rfl
  | succ n ih =>
    funext input
    show (read >>= fun v => readPresent (n + 1) read >>= fun vs => pure (v.toList ++ vs)) input = _
    rw [ih]
    rcases h with h | ⟨e, h⟩
    · have hone : readPresent 1 read input = (.ok [], input) := run_bind_ok (h input)
      exact (run_bind_ok (h input)).trans ((run_bind_ok hone).trans hone.symm)
    · exact (run_bind_error (h input)).trans (run_bind_error (h input)).symm

theorem readCoerced_idle {s : Schema} {w : WireType} (h : w.isVacant = true)
    (descend : Reading ValueReader) (ty : Ty) : Idle (readCoerced s descend ty w) none := by
  unfold readCoerced
  cases w with
  | stop => exact .inl fun _ => rfl
  | void =>
    rw [if_neg (by decide)]
    cases hr : resolve s ty with
    | error fault => exact .inr ⟨fault, fun _ => rfl⟩
    | ok shape =>
      have hne : shape.wireType ≠ .void := fun heq => by
        have hvacant := wireType_not_vacant shape
        rw [heq] at hvacant
        cases hvacant
      refine .inl fun input => (run_bind_ok (a := shape) rfl).trans ?_
      rw [if_neg hne]
      split
      · rfl
      · rfl
  | _ => cases h

theorem readWithin_idle {s : Schema} {w : WireType} (h : w.isVacant = true) (depth : Nat)
    (ty : Ty) : Idle (readWithin s depth ty w) none := by
  cases depth with
  | zero => exact readCoerced_idle h _ ty
  | succ depth => exact readCoerced_idle h _ ty

/-! ## All loops -/

/-- One round of the loop that reads the entries of a map. -/
def readEntry (read : ValueReader) (key value : Ty) (header : MapHeader) :
    Reading (Option (Value × Value)) := do
  let k ← read key header.key
  let v ← read value header.value
  return k.bind fun k => v.map fun v => (k, v)

/-- The loops over fields end by themselves, those over elements after the announced count. -/
structure LoopsEnd (s : Schema) : Prop where
  fields : ∀ d depth done input, Ends (readField d (readWithin s depth))
    (fun loop => loop done input)
    (readFields d (readWithin s depth) (input.length + 1) done input)
  skippedFields : ∀ depth input, Ends (Reader.skipField (Reader.skipWithin depth))
    (fun loop => loop input) (Reader.skipFields (Reader.skipWithin depth) (input.length + 1) input)
  items : ∀ depth elem (header : ListHeader),
    readPresent header.rounds (readWithin s depth elem header.element) =
      readPresent header.size.toInt.toNat (readWithin s depth elem header.element)
  entries : ∀ depth key value (header : MapHeader),
    readPresent header.rounds (readEntry (readWithin s depth) key value header) =
      readPresent header.size.toInt.toNat (readEntry (readWithin s depth) key value header)
  skippedItems : ∀ depth (header : ListHeader),
    Reader.replicate header.rounds (Reader.skipWithin depth header.element) =
      Reader.replicate header.size.toInt.toNat (Reader.skipWithin depth header.element)
  skippedEntries : ∀ depth (header : MapHeader),
    let skipEntry := do
      Reader.skipWithin depth header.key
      Reader.skipWithin depth header.value
    Reader.replicate header.rounds skipEntry =
      Reader.replicate header.size.toInt.toNat skipEntry

theorem loopsEnd (s : Schema) : LoopsEnd s where
  fields d depth := readFields_ends (readWithin_local s depth) d
  skippedFields depth := Reader.skipFields_ends (Reader.skipWithin_local depth)
  items depth elem header :=
    rounds_eq (readPresent · (readWithin s depth elem header.element))
      (fun hvacant => readPresent_idle (readWithin_idle hvacant depth elem)) header.size
  entries depth key value header :=
    rounds_eq (readPresent · (readEntry (readWithin s depth) key value header))
      (fun hvacant => by
        rw [Bool.and_eq_true] at hvacant
        exact readPresent_idle ((readWithin_idle hvacant.1 depth key).bind
          ((readWithin_idle hvacant.2 depth value).bind (.inl fun _ => rfl)))) header.size
  skippedItems depth header := Reader.replicate_listRounds depth header
  skippedEntries depth header := Reader.replicate_mapRounds depth header

end Codec

end ThriftRpc
