import Mathlib.Data.List.Induction
import Mathlib.Data.List.TakeWhile
import Mathlib.Data.Nat.Digits.Defs
import ThriftRpc.Text.Blank
import ThriftRpc.Text.Numeral

/-!
# Integers as text

`Decimal s n`: the text is a decimal numeral of the integer, an optional sign before digits of base
ten. `integer?` reads these and nothing else, and `trim` lets blanks stand around them
(`integer?_trim_eq_some_iff`).
-/

namespace ThriftRpc.Text

/-- At least one decimal digit. -/
def Digits (ds : List Char) : Prop := ds ≠ [] ∧ ∀ c ∈ ds, c.isDigit = true

/-- The natural of digits in base ten, the last of them the ones. -/
def natural (ds : List Char) : Nat :=
  Nat.ofDigits 10 (ds.reverse.map fun c => c.toNat - '0'.toNat)

inductive Decimal : List Char → Int → Prop
  | plain {ds : List Char} : Digits ds → Decimal ds (natural ds)
  | plus {ds : List Char} : Digits ds → Decimal ('+' :: ds) (natural ds)
  | minus {ds : List Char} : Digits ds → Decimal ('-' :: ds) (-natural ds)

/-- A numeral, with any blanks around it. -/
def Padded (s : List Char) (n : Int) : Prop :=
  ∃ before body after, s = before ++ body ++ after ∧ (∀ c ∈ before, isBlank c = true) ∧
    (∀ c ∈ after, isBlank c = true) ∧ Decimal body n

theorem digitsValue_eq (ds : List Char) : digitsValue ds = natural ds := by
  induction ds using List.reverseRecOn with
  | nil => rfl
  | append_singleton ds c ih =>
    unfold digitsValue natural at ih ⊢
    rw [List.foldl_append, ih, List.reverse_append, List.reverse_singleton, List.singleton_append,
      List.map_cons, Nat.ofDigits_cons, List.foldl_cons, List.foldl_nil]
    exact Nat.add_comm _ _

/-- A sign is split off if there is one. -/
theorem splitSign_cases (s : List Char) :
    (∃ ds, s = '-' :: ds ∧ splitSign s = (true, ds)) ∨
      (∃ ds, s = '+' :: ds ∧ splitSign s = (false, ds)) ∨ splitSign s = (false, s) := by
  unfold splitSign
  split
  · exact .inl ⟨_, rfl, rfl⟩
  · exact .inr (.inl ⟨_, rfl, rfl⟩)
  · exact .inr (.inr rfl)

/-- A digit is no sign. -/
theorem splitSign_digits {ds : List Char} (hds : ∀ c ∈ ds, c.isDigit = true) :
    splitSign ds = (false, ds) := by
  rcases splitSign_cases ds with ⟨_, rfl, -⟩ | ⟨_, rfl, -⟩ | hs
  · exact absurd (hds '-' List.mem_cons_self) (by decide)
  · exact absurd (hds '+' List.mem_cons_self) (by decide)
  · exact hs

theorem integer?_eq_some_iff_of_split {s ds : List Char} {negative : Bool} {n : Int}
    (hs : splitSign s = (negative, ds)) :
    integer? s = some n ↔ Digits ds ∧ n = if negative then -(natural ds : Int) else natural ds := by
  unfold integer? Digits
  rw [hs]
  simp only [Option.ite_none_right_eq_some, Option.some.injEq, List.all_eq_true, digitsValue_eq,
    eq_comm (a := n)]

theorem integer?_eq_some_iff {s : List Char} {n : Int} : integer? s = some n ↔ Decimal s n := by
  constructor
  · intro h
    rcases splitSign_cases s with ⟨ds, rfl, hs⟩ | ⟨ds, rfl, hs⟩ | hs
    · obtain ⟨hds, rfl⟩ := (integer?_eq_some_iff_of_split hs).mp h
      exact .minus hds
    · obtain ⟨hds, rfl⟩ := (integer?_eq_some_iff_of_split hs).mp h
      exact .plus hds
    · obtain ⟨hds, rfl⟩ := (integer?_eq_some_iff_of_split hs).mp h
      exact .plain hds
  · intro h
    cases h with
    | plain hds => exact (integer?_eq_some_iff_of_split (splitSign_digits hds.2)).mpr ⟨hds, rfl⟩
    | plus hds => exact (integer?_eq_some_iff_of_split rfl).mpr ⟨hds, rfl⟩
    | minus hds => exact (integer?_eq_some_iff_of_split rfl).mpr ⟨hds, rfl⟩

/-! ## Blanks around a numeral -/

theorem isBlank_of_isDigit {c : Char} (h : c.isDigit = true) : isBlank c = false := by
  have hcode : 48 ≤ c.toNat ∧ c.toNat ≤ 57 := by
    simp only [Char.isDigit, Bool.and_eq_true, decide_eq_true_eq] at h
    exact h
  rw [Bool.eq_false_iff]
  intro hblank
  simp only [isBlank, inRanges, blankRanges, List.any_cons, List.any_nil, Bool.or_eq_true,
    Bool.and_eq_true, decide_eq_true_eq, Bool.false_eq_true, or_false] at hblank
  omega

theorem Decimal.ne_nil {s : List Char} {n : Int} (h : Decimal s n) : s ≠ [] := by
  cases h with
  | plain hds => exact hds.1
  | plus _ => exact List.cons_ne_nil _ _
  | minus _ => exact List.cons_ne_nil _ _

theorem Decimal.not_blank {s : List Char} {n : Int} (h : Decimal s n) :
    ∀ c ∈ s, isBlank c = false := by
  cases h with
  | plain hds => exact fun c hc => isBlank_of_isDigit (hds.2 c hc)
  | plus hds =>
    exact List.forall_mem_cons.mpr ⟨by decide, fun c hc => isBlank_of_isDigit (hds.2 c hc)⟩
  | minus hds =>
    exact List.forall_mem_cons.mpr ⟨by decide, fun c hc => isBlank_of_isDigit (hds.2 c hc)⟩

/-- Blanks alone are dropped. -/
theorem exists_eq_trim (s : List Char) : ∃ before after, s = before ++ trim s ++ after ∧
    (∀ c ∈ before, isBlank c = true) ∧ ∀ c ∈ after, isBlank c = true := by
  refine ⟨s.takeWhile isBlank, ((s.dropWhile isBlank).reverse.takeWhile isBlank).reverse, ?_,
    fun c hc => List.mem_takeWhile_imp hc,
    fun c hc => List.mem_takeWhile_imp (List.mem_reverse.mp hc)⟩
  unfold trim
  rw [List.append_assoc, ← List.reverse_append, List.takeWhile_append_dropWhile,
    List.reverse_reverse, List.takeWhile_append_dropWhile]

theorem dropWhile_blanks {before s : List Char} (hbefore : ∀ c ∈ before, isBlank c = true)
    (hs : ∀ c ∈ s.head?, isBlank c = false) : (before ++ s).dropWhile isBlank = s := by
  rw [List.dropWhile_append_of_pos hbefore]
  cases s with
  | nil => rfl
  | cons c s =>
    have hc := hs c rfl
    exact List.dropWhile_cons_of_neg (by simp [hc])

theorem trim_eq {before body after : List Char} (hbefore : ∀ c ∈ before, isBlank c = true)
    (hafter : ∀ c ∈ after, isBlank c = true) (hne : body ≠ [])
    (hbody : ∀ c ∈ body, isBlank c = false) : trim (before ++ body ++ after) = body := by
  have hleft : (before ++ (body ++ after)).dropWhile isBlank = body ++ after := by
    obtain ⟨b, body', rfl⟩ := List.exists_cons_of_ne_nil hne
    refine dropWhile_blanks hbefore fun c hc => ?_
    cases hc
    exact hbody _ List.mem_cons_self
  have hright : (after.reverse ++ body.reverse).dropWhile isBlank = body.reverse :=
    dropWhile_blanks (fun c hc => hafter c (List.mem_reverse.mp hc))
      fun c hc => hbody c (List.mem_reverse.mp (List.mem_of_mem_head? hc))
  unfold trim
  rw [List.append_assoc, hleft, List.reverse_append, hright, List.reverse_reverse]

theorem integer?_trim_eq_some_iff {s : List Char} {n : Int} :
    integer? (trim s) = some n ↔ Padded s n := by
  rw [integer?_eq_some_iff]
  constructor
  · intro h
    obtain ⟨before, after, hs, hbefore, hafter⟩ := exists_eq_trim s
    exact ⟨before, trim s, after, hs, hbefore, hafter, h⟩
  · rintro ⟨before, body, after, rfl, hbefore, hafter, h⟩
    rwa [trim_eq hbefore hafter h.ne_nil h.not_blank]

end ThriftRpc.Text
