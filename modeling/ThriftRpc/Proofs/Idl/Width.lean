import Mathlib.Data.List.Infix
import ThriftRpc.Idl.Parser.Token

/-!
# What recognisers take

A recogniser takes a part of the text from its start, never more than there is, and never nothing.
-/

namespace ThriftRpc.Idl

namespace Lexeme

open Text (isBlank)

variable {s a b matched : List Char} {quote : Char}

theorem append_begins (h : a <+: s) (h' : b <+: s.drop a.length) : a ++ b <+: s := by
  obtain ⟨t, rfl⟩ := h
  rw [List.drop_left] at h'
  exact (List.prefix_append_right_inj a).mpr h'

theorem of_nonempty? (h : nonempty? a = some matched) : matched = a ∧ matched ≠ [] := by
  unfold nonempty? at h
  split at h
  · cases h
  · next hne =>
    cases h
    exact ⟨rfl, hne⟩

theorem digits?_begins (h : digits? s = some matched) : matched <+: s ∧ matched ≠ [] := by
  obtain ⟨rfl, hne⟩ := of_nonempty? h
  exact ⟨List.takeWhile_prefix _, hne⟩

theorem sign_begins (s : List Char) : sign s <+: s := by
  cases s with
  | nil => exact List.prefix_refl _
  | cons c s =>
    by_cases h : c = '+' ∨ c = '-'
    · simp [sign, h]
    · simp [sign, h]

theorem integer?_begins (h : integer? s = some matched) : matched <+: s ∧ matched ≠ [] := by
  obtain ⟨ds, hds, heq⟩ := Option.bind_eq_some_iff.mp h
  cases heq
  obtain ⟨hpre, hne⟩ := digits?_begins hds
  exact ⟨append_begins (sign_begins s) hpre, by simp [hne]⟩

theorem hex?_begins (h : hex? s = some matched) : matched <+: s ∧ matched ≠ [] := by
  obtain ⟨ds, hds, rfl⟩ := Option.map_eq_some_iff.mp h
  unfold hexDigits? at hds
  split at hds
  · obtain ⟨rfl, -⟩ := of_nonempty? hds
    refine ⟨?_, by simp⟩
    simpa using List.takeWhile_prefix _
  · cases hds

theorem exponent?_begins (h : exponent? s = some matched) : matched <+: s := by
  unfold exponent? at h
  split at h
  · split at h
    · obtain ⟨ds, hds, rfl⟩ := Option.map_eq_some_iff.mp h
      simpa using (integer?_begins hds).1
    · cases h
  · cases h

theorem fraction?_begins (h : fraction? s = some matched) : matched <+: s ∧ matched ≠ [] := by
  unfold fraction? at h
  split at h
  · next s =>
    obtain ⟨ds, hds, rfl⟩ := Option.map_eq_some_iff.mp h
    refine ⟨?_, by simp⟩
    have htail : (exponent? (s.drop ds.length)).getD [] <+: s.drop ds.length := by
      cases hexp : exponent? (s.drop ds.length) with
      | none => exact List.nil_prefix
      | some e => exact exponent?_begins hexp
    simpa using append_begins (digits?_begins hds).1 htail
  · cases h

theorem double?_begins (h : double? s = some matched) : matched <+: s ∧ matched ≠ [] := by
  have hsign := sign_begins s
  unfold double? at h
  simp only at h
  split at h
  · next ds hds =>
    obtain ⟨tail, htail, rfl⟩ := Option.map_eq_some_iff.mp h
    obtain ⟨hpre, hne⟩ := digits?_begins hds
    have htail' : tail <+: ((s.drop (sign s).length).drop ds.length) := by
      rcases hf : fraction? ((s.drop (sign s).length).drop ds.length) with _ | f
      · rw [hf] at htail
        exact exponent?_begins htail
      · rw [hf] at htail
        cases htail
        exact (fraction?_begins hf).1
    refine ⟨?_, by simp [hne]⟩
    rw [List.append_assoc]
    exact append_begins hsign (append_begins hpre htail')
  · obtain ⟨f, hf, rfl⟩ := Option.map_eq_some_iff.mp h
    obtain ⟨hpre, hne⟩ := fraction?_begins hf
    exact ⟨append_begins hsign hpre, by simp [hne]⟩

theorem identifier?_begins (h : identifier? s = some matched) : matched <+: s ∧ matched ≠ [] := by
  unfold identifier? at h
  split at h
  · split at h
    · cases h
      refine ⟨?_, by simp⟩
      simpa using List.takeWhile_prefix _
    · cases h
  · cases h

theorem upToClose?_begins (h : upToClose? s = some a) : a ++ ['*', '/'] <+: s := by
  fun_induction upToClose? s generalizing a with
  | case1 s =>
    cases h
    exact List.prefix_append ['*', '/'] s
  | case2 c s _ ih =>
    obtain ⟨inner, hinner, rfl⟩ := Option.map_eq_some_iff.mp h
    simpa using ih hinner
  | case3 => cases h

theorem comment?_begins {p : List Char × List Char} (h : comment? s = some p) : p.1 <+: s := by
  simp only [comment?, Option.orElse_eq_orElse, Option.orElse_eq_or, Option.or_eq_some_iff] at h
  rcases h with h | ⟨-, h⟩
  · unfold blockComment? at h
    split at h
    · obtain ⟨inner, hinner, rfl⟩ := Option.map_eq_some_iff.mp h
      simpa using upToClose?_begins hinner
    · cases h
  · unfold lineComment? at h
    simp only at h
    split at h
    · cases h
      simpa using List.takeWhile_prefix _
    · cases h
      simpa using List.takeWhile_prefix _
    · cases h

theorem triviaWidth_le (s : List Char) : triviaWidth s ≤ s.length := by
  fun_induction triviaWidth s with
  | case1 s blank whole inner h _ ih =>
    have hblank : blank ≤ s.length := (List.takeWhile_prefix _).length_le
    have hwhole := (comment?_begins h).length_le
    rw [List.length_drop] at ih hwhole
    simp only at hwhole
    omega
  | case2 s => exact (List.takeWhile_prefix _).length_le

theorem literalBody?_width {p : List Char × Nat} (h : literalBody? quote s = some p) :
    0 < p.2 ∧ p.2 ≤ s.length := by
  fun_induction literalBody? quote s generalizing p with
  | case1 => cases h
  | case2 c s e _ ih =>
    obtain ⟨q, hq, rfl⟩ := Option.map_eq_some_iff.mp h
    have := ih hq
    simp only [List.length_cons]
    omega
  | case3 c s _ ih =>
    obtain ⟨q, hq, rfl⟩ := Option.map_eq_some_iff.mp h
    have := ih hq
    simp only [List.length_cons] at this ⊢
    omega
  | case4 =>
    cases h
    simp
  | case5 c s _ _ ih =>
    obtain ⟨q, hq, rfl⟩ := Option.map_eq_some_iff.mp h
    have := ih hq
    simp only [List.length_cons]
    omega

end Lexeme

/-! ## Tokens -/

/-- A recogniser takes at least a character, and no more than there are. -/
def Bounded {α : Type} (recognise : List Char → Option (α × Nat)) : Prop :=
  ∀ s a n, recognise s = some (a, n) → 0 < n ∧ n ≤ s.length

namespace Bounded

open Lexeme

theorem of_match {s matched : List Char} (h : matched <+: s ∧ matched ≠ []) :
    0 < matched.length ∧ matched.length ≤ s.length :=
  ⟨List.length_pos_iff.mpr h.2, h.1.length_le⟩

theorem of_text {text : String} {s : List Char} (htext : text ≠ "")
    (h : text.toList.isPrefixOf s = true) : 0 < text.length ∧ text.length ≤ s.length := by
  have hne : text.toList ≠ [] := fun heq => htext (String.toList_eq_nil_iff.mp heq)
  rw [← String.length_toList]
  exact of_match ⟨List.isPrefixOf_iff_prefix.mp h, hne⟩

theorem keyword {word : String} (hword : word ≠ "") :
    Bounded fun s => if Lexeme.keyword word s then some ((), word.length) else none := by
  intro s a n h
  simp only at h
  split at h
  · next hkeyword =>
    cases h
    exact of_text hword (Bool.and_eq_true_iff.mp hkeyword).1
  · cases h

theorem symbol {text : String} (htext : text ≠ "") :
    Bounded fun s => if text.toList.isPrefixOf s then some ((), text.length) else none := by
  intro s a n h
  simp only at h
  split at h
  · next hprefix =>
    cases h
    exact of_text htext hprefix
  · cases h

theorem identifier :
    Bounded fun s => (Lexeme.identifier? s).map fun m => (String.ofList m, m.length) := by
  intro s a n h
  obtain ⟨m, hm, heq⟩ := Option.map_eq_some_iff.mp h
  cases heq
  exact of_match (identifier?_begins hm)

theorem double : Bounded (α := Double) fun s => do
    let m ← Lexeme.double? s
    return (← Double.ofText? m, m.length) := by
  intro s a n h
  obtain ⟨m, hm, h⟩ := Option.bind_eq_some_iff.mp h
  obtain ⟨d, hd, heq⟩ := Option.bind_eq_some_iff.mp h
  cases heq
  exact of_match (double?_begins hm)

theorem literal :
    Bounded fun s => (Lexeme.literal? s).map fun p => (String.ofList p.1, p.2) := by
  intro s a n h
  obtain ⟨p, hp, heq⟩ := Option.map_eq_some_iff.mp h
  cases heq
  cases s with
  | nil => cases hp
  | cons c s =>
    rw [Lexeme.literal?] at hp
    split at hp
    · obtain ⟨q, hq, rfl⟩ := Option.map_eq_some_iff.mp hp
      have := literalBody?_width hq
      simp only [List.length_cons]
      omega
    · cases hp

theorem integer : Bounded Parser.integerLexeme? := by
  intro s a n h
  obtain ⟨m, hm, h⟩ := Option.bind_eq_some_iff.mp h
  obtain ⟨v, hv, heq⟩ := Option.bind_eq_some_iff.mp h
  cases heq
  simp only [Option.orElse_eq_orElse, Option.orElse_eq_or, Option.or_eq_some_iff] at hm
  rcases hm with hm | ⟨-, hm⟩
  · exact of_match (hex?_begins hm)
  · exact of_match (integer?_begins hm)

end Bounded

end ThriftRpc.Idl
