import ThriftRpc.Proofs.Codec.Prepare
import ThriftRpc.Proofs.Double.Exact
import ThriftRpc.Proofs.Text.Integer

/-!
# Preparing integers

`Denotes v n`: the value stands for the integer, as a value of an integer kind, as text or as a
double. Preparing for an integer type keeps that integer and refuses a value that denotes none of
the type (`KeepsInteger`), with the exception of one double: `2 ^ 63` comes out as the greatest
integer of 64 bits (`keepsInteger_iff`).
-/

namespace ThriftRpc

/-- The width of an integer type. -/
def Primitive.bits? : Primitive → Option Nat
  | byte => some 8
  | i16 => some 16
  | i32 => some 32
  | i64 => some 64
  | _ => none

theorem Primitive.bits_le {p : Primitive} {bits : Nat} (hp : p.bits? = some bits) : bits ≤ 64 := by
  cases p <;> cases hp <;> decide

namespace Codec

/-- The integers of a signed word of so many bits. -/
def InRange (bits : Nat) (n : Int) : Prop := -2 ^ (bits - 1) ≤ n ∧ n < 2 ^ (bits - 1)

/-- The integer that a value stands for; of a finite double its integer part. -/
inductive Denotes : Value → Int → Prop
  | byte (k : Int8) : Denotes (.byte k) k.toInt
  | i16 (k : Int16) : Denotes (.i16 k) k.toInt
  | i32 (k : Int32) : Denotes (.i32 k) k.toInt
  | i64 (k : Int64) : Denotes (.i64 k) k.toInt
  | string {t : String} {n : Int} : Text.Padded t.toList n → Denotes (.string t) n
  | double {x : Double} : x.isFinite = true → Denotes (.double x) (towardsZero x.toRat)

/-- Preparing `v` gives the value of the integer type `p` with the integer that `v` denotes, and
nothing else; it refuses `v` as a mismatch if `v` denotes no integer in range. -/
structure KeepsInteger (s : Schema) (ty : Ty) (p : Primitive) (bits : Nat) (v : Value) : Prop where
  kept : ∀ w, prepare s ty v = .ok w ↔
    ∃ n, Denotes v n ∧ InRange bits n ∧ p.Holds w ∧ w.integer? = some n
  refused : (∀ n, Denotes v n → ¬InRange bits n) →
    prepare s ty v = .error (.mismatch ty.text v.kind)

variable {s : Schema} {ty : Ty} {p : Primitive} {bits : Nat} {v w : Value} {n : Int}

theorem fits_iff : fits bits n = true ↔ InRange bits n := by
  rw [fits_eq]
  unfold InRange
  push_cast [Nat.pow_eq]
  exact Iff.rfl

theorem InRange.mono {more : Nat} (h : InRange bits n) (hle : bits ≤ more) : InRange more n := by
  have hpow : (2 : Int) ^ (bits - 1) ≤ 2 ^ (more - 1) :=
    pow_le_pow_right₀ (by decide) (Nat.sub_le_sub_right hle 1)
  unfold InRange at h ⊢
  omega

theorem asPrimitive_integer (hp : p.bits? = some bits) (v : Value) :
    asPrimitive p v = (integerOf? v).bind (narrow p) := by
  cases p with
  | byte | i16 | i32 | i64 => rfl
  | bool | double | string | binary => cases hp

theorem integerOf?_of_integer? (h : v.integer? = some n) : integerOf? v = some n := by
  cases v with
  | string _ | double _ => cases h
  | _ => exact h

/-- A word that is made of an integer only in its range gives it back. -/
theorem word_integer (f : Int → Value) (hf : InRange bits n → (f n).integer? = some n)
    (h : (if fits bits n then some (f n) else none) = some w) :
    InRange bits n ∧ w.integer? = some n := by
  obtain ⟨hfits, hw⟩ := Option.ite_none_right_eq_some.mp h
  cases hw
  exact ⟨fits_iff.mp hfits, hf (fits_iff.mp hfits)⟩

theorem narrow_integer (hp : p.bits? = some bits) (h : narrow p n = some w) :
    InRange bits n ∧ w.integer? = some n := by
  cases p <;> cases hp
  case byte =>
    refine word_integer (fun k => .byte (.ofInt k)) (fun hn => ?_) h
    exact congrArg some (Int8.toInt_ofInt_of_le hn.1 hn.2)
  case i16 =>
    refine word_integer (fun k => .i16 (.ofInt k)) (fun hn => ?_) h
    exact congrArg some (Int16.toInt_ofInt_of_le hn.1 hn.2)
  case i32 =>
    refine word_integer (fun k => .i32 (.ofInt k)) (fun hn => ?_) h
    exact congrArg some (Int32.toInt_ofInt_of_le hn.1 hn.2)
  case i64 =>
    refine word_integer (fun k => .i64 (.ofInt k)) (fun hn => ?_) h
    exact congrArg some (Int64.toInt_ofInt_of_le hn.1 hn.2)

theorem narrow_eq_some_iff (hp : p.bits? = some bits) :
    narrow p n = some w ↔ InRange bits n ∧ p.Holds w ∧ w.integer? = some n := by
  constructor
  · intro h
    have hn := narrow_integer hp h
    exact ⟨hn.1, narrow_holds h, hn.2⟩
  · rintro ⟨-, hholds, hw⟩
    have h := asPrimitive_of_holds hholds
    rwa [asPrimitive_integer hp, integerOf?_of_integer? hw] at h

/-! ## The integer that is taken from a value -/

theorem integerOf?_double {x : Double} (hx : x ≠ Double.twoPow63) :
    integerOf? (.double x) = some n ↔
      (x.isFinite = true ∧ towardsZero x.toRat = n) ∧ InRange 64 n := by
  have hne : x.truncated ≠ 2 ^ 63 := mt x.truncated_eq_two_pow_63.mp hx
  rw [← x.truncated_eq]
  unfold integerOf? InRange
  simp only [Option.ite_none_right_eq_some, Option.some.injEq, Bool.and_eq_true, decide_eq_true_eq]
  constructor
  · rintro ⟨⟨⟨hfinite, hlow⟩, hhigh⟩, rfl⟩
    exact ⟨⟨hfinite, by omega⟩, by omega, by omega⟩
  · rintro ⟨⟨hfinite, rfl⟩, hlow, hhigh⟩
    exact ⟨⟨⟨hfinite, by omega⟩, by omega⟩, by omega⟩

theorem integerOf?_string {t : String} :
    integerOf? (.string t) = some n ↔ Text.Padded t.toList n ∧ InRange 64 n := by
  show integerText? t = some n ↔ _
  unfold integerText?
  rw [Option.filter_eq_some_iff, Text.integer?_trim_eq_some_iff, fits_iff]

theorem integerOf?_eq_some_iff (hv : v ≠ .double Double.twoPow63) :
    integerOf? v = some n ↔ Denotes v n ∧ InRange 64 n := by
  constructor
  · intro h
    cases v with
    | byte k =>
      cases h
      have hk : InRange 8 k.toInt := ⟨k.le_toInt, k.toInt_lt⟩
      exact ⟨.byte k, hk.mono (by decide)⟩
    | i16 k =>
      cases h
      have hk : InRange 16 k.toInt := ⟨k.le_toInt, k.toInt_lt⟩
      exact ⟨.i16 k, hk.mono (by decide)⟩
    | i32 k =>
      cases h
      have hk : InRange 32 k.toInt := ⟨k.le_toInt, k.toInt_lt⟩
      exact ⟨.i32 k, hk.mono (by decide)⟩
    | i64 k =>
      cases h
      exact ⟨.i64 k, k.le_toInt, k.toInt_lt⟩
    | string t =>
      obtain ⟨ht, hn⟩ := integerOf?_string.mp h
      exact ⟨.string ht, hn⟩
    | double x =>
      obtain ⟨⟨hfinite, rfl⟩, hn⟩ := (integerOf?_double fun hx => hv (hx ▸ rfl)).mp h
      exact ⟨.double hfinite, hn⟩
    | bool | binary | list | set | map | enum | struct => cases h
  · rintro ⟨hdenotes, hn⟩
    cases hdenotes with
    | byte | i16 | i32 | i64 => rfl
    | string ht => exact integerOf?_string.mpr ⟨ht, hn⟩
    | double hfinite => exact (integerOf?_double fun hx => hv (hx ▸ rfl)).mpr ⟨⟨hfinite, rfl⟩, hn⟩

/-- Rounding the bound of the range to a double lets this value through, and it is then clamped. -/
theorem integerOf?_twoPow63 :
    integerOf? (.double Double.twoPow63) = some (2 ^ 63 - 1) := by
  decide

theorem denotes_twoPow63 : Denotes (.double Double.twoPow63) n ↔ n = 2 ^ 63 := by
  have hvalue : towardsZero Double.twoPow63.toRat = 2 ^ 63 := by
    rw [← Double.truncated_eq]
    decide
  constructor
  · intro h
    cases h
    exact hvalue
  · rintro rfl
    exact hvalue ▸ .double (by decide)

theorem prepare_integer (hr : resolve s ty = .ok (.prim p)) (hp : p.bits? = some bits) :
    prepare s ty v = orMismatch ty v ((integerOf? v).bind (narrow p)) := by
  unfold prepare
  rw [hr, ← asPrimitive_integer hp]
  rfl

theorem orMismatch_eq_ok {o : Option Value} : orMismatch ty v o = .ok w ↔ o = some w :=
  ⟨eq_some_of_orMismatch, fun h => h ▸ rfl⟩

/-- The integers that come out are those that are denoted. -/
theorem narrowed_iff (hp : p.bits? = some bits) (hv : ¬(p = .i64 ∧ v = .double Double.twoPow63)) :
    (integerOf? v).bind (narrow p) = some w ↔
      ∃ n, Denotes v n ∧ InRange bits n ∧ p.Holds w ∧ w.integer? = some n := by
  simp only [Option.bind_eq_some_iff, narrow_eq_some_iff hp]
  refine exists_congr fun n => ?_
  by_cases hx : v = .double Double.twoPow63
  · -- The clamped integer is too large for the narrower types, like the one it stands for.
    have hbits : bits ≤ 32 := by
      cases p <;> cases hp <;> first | decide | exact absurd ⟨rfl, hx⟩ hv
    have hlarge (h : InRange bits n) : n < 2 ^ 31 := (h.mono hbits).2
    subst hx
    rw [integerOf?_twoPow63, denotes_twoPow63, Option.some.injEq]
    constructor
    · rintro ⟨rfl, hn, -⟩
      exact absurd (hlarge hn) (by decide)
    · rintro ⟨rfl, hn, -⟩
      exact absurd (hlarge hn) (by decide)
  · rw [integerOf?_eq_some_iff hx, and_assoc]
    exact and_congr_right fun _ =>
      ⟨And.right, fun h => ⟨h.1.mono (Primitive.bits_le hp), h⟩⟩

/-- Preparing for an integer type keeps every integer it accepts, and it accepts exactly those of
the type. For 64 bits this is so of all values but one, the double `2 ^ 63`. -/
theorem keepsInteger_iff (hr : resolve s ty = .ok (.prim p)) (hp : p.bits? = some bits) :
    KeepsInteger s ty p bits v ↔ ¬(p = .i64 ∧ v = .double Double.twoPow63) := by
  have hprepare := prepare_integer (v := v) hr hp
  constructor
  · rintro h ⟨rfl, rfl⟩
    rw [integerOf?_twoPow63] at hprepare
    obtain ⟨n, hn, -, -, hw⟩ := (h.kept _).mp hprepare
    rw [denotes_twoPow63.mp hn] at hw
    exact absurd hw (by decide)
  · intro hv
    have hkept (w : Value) : prepare s ty v = .ok w ↔
        ∃ n, Denotes v n ∧ InRange bits n ∧ p.Holds w ∧ w.integer? = some n := by
      rw [hprepare, orMismatch_eq_ok, narrowed_iff hp hv]
    refine ⟨hkept, fun hnone => ?_⟩
    rw [hprepare]
    cases ho : (integerOf? v).bind (narrow p) with
    | none => rfl
    | some w =>
      obtain ⟨n, hn, hrange, -⟩ := (narrowed_iff hp hv).mp ho
      exact absurd hrange (hnone n hn)

/-- A schema that calls an integer of 16 bits a count. -/
def counts : Schema := { typedefs := [("Count", .prim .i16)] }

theorem keepsInteger_count :
    resolve counts (.named "Count") = .ok (.prim .i16) ∧ Primitive.i16.bits? = some 16 ∧
      KeepsInteger counts (.named "Count") .i16 16 (.string " +42\t") ∧
      prepare counts (.named "Count") (.string " +42\t") = .ok (.i16 42) := by
  have hkeeps : KeepsInteger counts (.named "Count") .i16 16 (.string " +42\t") :=
    (keepsInteger_iff rfl rfl).mpr fun h => nomatch h.1
  have htext : Text.Padded " +42\t".toList 42 := Text.integer?_trim_eq_some_iff.mp (by decide)
  exact ⟨rfl, rfl, hkeeps, (hkeeps.kept _).mpr
    ⟨42, .string htext, ⟨by decide, by decide⟩, .i16 42, rfl⟩⟩

/-- `2 ^ 63` is no integer of 64 bits, and what comes out is another one. -/
theorem prepare_twoPow63 :
    Denotes (.double Double.twoPow63) (2 ^ 63) ∧ ¬InRange 64 (2 ^ 63) ∧
      prepare {} (.prim .i64) (.double Double.twoPow63) = .ok (.i64 0x7FFFFFFFFFFFFFFF) := by
  refine ⟨denotes_twoPow63.mpr rfl, fun h => absurd h.2 (by decide), ?_⟩
  rw [prepare_integer rfl rfl, integerOf?_twoPow63]
  rfl

end Codec

end ThriftRpc
