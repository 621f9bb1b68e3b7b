import Mathlib.Data.List.Infix
import ThriftRpc.Proofs.Idl.Grammar

/-!
# Gaps between tokens

A token ends where a gap begins, or where the text ends. What is skipped in front of a token is
exactly the gap before it.
-/

namespace ThriftRpc.Idl.Grammar

open Text (isBlank)
open Lexeme (isNameChar)

theorem toNat_of_isDigit {c : Char} (h : c.isDigit = true) : 48 ≤ c.toNat ∧ c.toNat ≤ 57 := by
  simpa [Char.isDigit, UInt32.le_iff_toNat_le] using h

theorem toNat_of_isAlpha {c : Char} (h : c.isAlpha = true) :
    (65 ≤ c.toNat ∧ c.toNat ≤ 90) ∨ (97 ≤ c.toNat ∧ c.toNat ≤ 122) := by
  have hcase : c.isUpper = true ∨ c.isLower = true := by
    simpa only [Bool.or_eq_true] using (show (c.isUpper || c.isLower) = true from h)
  rcases hcase with hc | hc
  · have hupper : 'A'.val ≤ c.val ∧ c.val ≤ 'Z'.val := of_decide_eq_true hc
    exact .inl hupper
  · have hlower : 'a'.val ≤ c.val ∧ c.val ≤ 'z'.val := by
      simpa only [Bool.and_eq_true, decide_eq_true_eq] using
        (show (decide ('a'.val ≤ c.val) && decide (c.val ≤ 'z'.val)) = true from hc)
    exact .inr hlower

theorem toNat_of_isNameChar {c : Char} (h : isNameChar c = true) :
    c.toNat = 46 ∨ (48 ≤ c.toNat ∧ c.toNat ≤ 57) ∨ (65 ≤ c.toNat ∧ c.toNat ≤ 90) ∨
      c.toNat = 95 ∨ (97 ≤ c.toNat ∧ c.toNat ≤ 122) := by
  simp only [isNameChar, Char.isAlphanum, Bool.or_eq_true, decide_eq_true_eq] at h
  rcases h with ((h | h) | rfl) | rfl
  · have := toNat_of_isAlpha h
    omega
  · have := toNat_of_isDigit h
    omega
  · decide
  · decide

theorem isNameChar_of_isDigit {c : Char} (h : c.isDigit = true) : isNameChar c = true := by
  simp [isNameChar, Char.isAlphanum, h]

theorem isNameChar_of_isAlpha {c : Char} (h : c.isAlpha = true) : isNameChar c = true := by
  simp [isNameChar, Char.isAlphanum, h]

/-- A character that a gap can begin with. -/
def StartsGap (c : Char) : Prop := isBlank c = true ∨ c = '/' ∨ c = '#'

instance (c : Char) : Decidable (StartsGap c) := inferInstanceAs (Decidable (_ ∨ _))

theorem not_isNameChar_of_startsGap {c : Char} (h : StartsGap c) : isNameChar c = false := by
  rw [Bool.eq_false_iff]
  intro hname
  have hcode := toNat_of_isNameChar hname
  rcases h with h | rfl | rfl
  · simp only [isBlank, Text.inRanges, Text.blankRanges, List.any_cons, List.any_nil,
      Bool.or_eq_true, Bool.and_eq_true, decide_eq_true_eq, Bool.false_eq_true, or_false] at h
    omega
  · cases hname
  · cases hname

theorem not_isDigit_of_startsGap {c : Char} (h : StartsGap c) : c.isDigit = false := by
  rw [Bool.eq_false_iff]
  intro hdigit
  have hname := isNameChar_of_isDigit hdigit
  rw [not_isNameChar_of_startsGap h] at hname
  cases hname

/-- The text is at its end or goes on with a gap. -/
def Ended (s : List Char) : Prop := ∀ c ∈ s.head?, StartsGap c

/-- A run of characters stops at the first that is none of them. -/
theorem takeWhile_append {p : Char → Bool} {w s : List Char} (hw : ∀ c ∈ w, p c = true)
    (hs : ∀ c ∈ s.head?, p c = false) : (w ++ s).takeWhile p = w := by
  rw [List.takeWhile_append_of_pos hw]
  cases s with
  | nil => simp
  | cons c s =>
    have hc := hs c rfl
    simp [hc]

theorem takeWhile_ended {p : Char → Bool} {w s : List Char} (hw : ∀ c ∈ w, p c = true)
    (hp : ∀ c, StartsGap c → p c = false) (hs : Ended s) : (w ++ s).takeWhile p = w :=
  takeWhile_append hw fun c hc => hp c (hs c hc)

/-! ## Gaps -/

theorem trivia_of_blanks {s : List Char} (h : ∀ c ∈ s, isBlank c = true) : Trivia s := by
  induction s with
  | nil => exact .nil
  | cons c s ih =>
    rw [List.forall_mem_cons] at h
    exact .blank h.1 (ih h.2)

theorem Gap.trivia {t : Token} {s : List Char} (h : Gap t s) : Trivia s := by
  unfold Gap at h
  split at h
  · exact trivia_of_blanks h
  · exact h

theorem Trivia.ended {gap s : List Char} (h : Trivia gap) (hne : gap ≠ []) : Ended (gap ++ s) := by
  intro c hc
  cases h with
  | nil => exact absurd rfl hne
  | blank hblank _ =>
    cases hc
    exact .inl hblank
  | block =>
    cases hc
    exact .inr (.inl rfl)
  | line hstart =>
    rcases hstart with rfl | rfl
    · cases hc
      exact .inr (.inr rfl)
    · cases hc
      exact .inr (.inl rfl)

/-- The text in front of `*/`. -/
theorem upToClose?_eq {inner s : List Char} (h : ¬ ['*', '/'] <:+: inner) :
    Lexeme.upToClose? (inner ++ '*' :: '/' :: s) = some inner := by
  induction inner with
  | nil => rfl
  | cons c inner ih =>
    have hrest := ih fun hin => h (hin.trans (List.suffix_cons c inner).isInfix)
    have hstep : Lexeme.upToClose? (c :: (inner ++ '*' :: '/' :: s)) =
        (Lexeme.upToClose? (inner ++ '*' :: '/' :: s)).map (c :: ·) := by
      refine Lexeme.upToClose?.eq_2 c _ ?_
      intro s' hc hs'
      subst hc
      cases inner with
      | nil => cases hs'
      | cons d inner =>
        cases hs'
        exact h (List.IsPrefix.isInfix ⟨inner, rfl⟩)
    rw [List.cons_append, hstep, hrest]
    rfl

theorem blockComment?_eq {inner s : List Char} (h : ¬ ['*', '/'] <:+: inner) :
    Lexeme.comment? (['/', '*'] ++ inner ++ ['*', '/'] ++ s) =
      some (['/', '*'] ++ inner ++ ['*', '/'], inner) := by
  have hclose := upToClose?_eq (s := s) h
  simp only [List.append_assoc, List.cons_append, List.nil_append] at hclose ⊢
  unfold Lexeme.comment? Lexeme.blockComment?
  simp [hclose]

theorem lineComment?_eq {start inner s : List Char} (hstart : start = ['#'] ∨ start = ['/', '/'])
    (h : '\n' ∉ inner) :
    Lexeme.comment? (start ++ inner ++ '\n' :: s) = some (start ++ inner, inner) := by
  have hline : (inner ++ '\n' :: s).takeWhile (· != '\n') = inner := by
    rw [List.takeWhile_append_of_pos fun c hc => ?_]
    · simp
    · have hne : c ≠ '\n' := fun he => h (he ▸ hc)
      simpa using hne
  rcases hstart with rfl | rfl
  · simp [Lexeme.comment?, Lexeme.blockComment?, Lexeme.lineComment?, hline]
  · simp [Lexeme.comment?, Lexeme.blockComment?, Lexeme.lineComment?, hline]

theorem triviaWidth_eq (s : List Char) :
    Lexeme.triviaWidth s = (match Lexeme.comment? (s.dropWhile isBlank) with
      | some (whole, _) => (s.takeWhile isBlank).length + whole.length +
        Lexeme.triviaWidth (s.drop ((s.takeWhile isBlank).length + whole.length))
      | none => (s.takeWhile isBlank).length) := by
  rw [Lexeme.triviaWidth]
  have hdrop : s.drop (s.takeWhile isBlank).length = s.dropWhile isBlank := by
    have hsplit := List.takeWhile_append_dropWhile (p := isBlank) (l := s)
    calc s.drop (s.takeWhile isBlank).length
        = (s.takeWhile isBlank ++ s.dropWhile isBlank).drop (s.takeWhile isBlank).length := by
          rw [hsplit]
      _ = s.dropWhile isBlank := List.drop_left
  split
  · next whole inner hc =>
    rw [hdrop] at hc
    rw [hc]
  · next hc =>
    rw [hdrop] at hc
    rw [hc]

theorem triviaWidth_blank {c : Char} (s : List Char) (h : isBlank c = true) :
    Lexeme.triviaWidth (c :: s) = Lexeme.triviaWidth s + 1 := by
  rw [triviaWidth_eq, triviaWidth_eq s]
  simp only [List.takeWhile_cons, List.dropWhile_cons, h, if_true, List.length_cons]
  cases Lexeme.comment? (s.dropWhile isBlank) with
  | none => rfl
  | some p =>
    simp only
    have hdrop : (s.takeWhile isBlank).length + 1 + p.1.length =
      (s.takeWhile isBlank).length + p.1.length + 1 := by omega
    rw [hdrop, List.drop_succ_cons]
    omega

/-- Without blanks in front. -/
theorem triviaWidth_of_head {s : List Char} (hs : ∀ c ∈ s.head?, isBlank c = false) :
    Lexeme.triviaWidth s = (match Lexeme.comment? s with
      | some (whole, _) => whole.length + Lexeme.triviaWidth (s.drop whole.length)
      | none => 0) := by
  have hnone : s.takeWhile isBlank = [] ∧ s.dropWhile isBlank = s := by
    cases s with
    | nil => simp
    | cons c s => simp [hs c rfl]
  rw [triviaWidth_eq, hnone.1, hnone.2]
  simp

theorem comment?_eq_none {s : List Char} (hs : ∀ c ∈ s.head?, c ≠ '/' ∧ c ≠ '#') :
    Lexeme.comment? s = none := by
  cases s with
  | nil => rfl
  | cons c s =>
    obtain ⟨hslash, hhash⟩ := hs c rfl
    unfold Lexeme.comment? Lexeme.blockComment? Lexeme.lineComment?
    simp [hslash, hhash]

/-- A comment in front is taken as a whole. -/
theorem triviaWidth_comment {whole inner s : List Char} {c : Char} (hc : whole.head? = some c)
    (hblank : isBlank c = false) (h : Lexeme.comment? (whole ++ s) = some (whole, inner)) :
    Lexeme.triviaWidth (whole ++ s) = whole.length + Lexeme.triviaWidth s := by
  have hhead : ∀ x ∈ (whole ++ s).head?, isBlank x = false := by
    intro x hx
    rw [List.head?_append, hc] at hx
    cases hx
    exact hblank
  rw [triviaWidth_of_head hhead, h]
  simp only [List.drop_left]

/-- What is skipped before a token is the gap before it. -/
theorem triviaWidth_gap {gap s : List Char} (h : Trivia gap) (hs : ∀ c ∈ s.head?, ¬ StartsGap c) :
    Lexeme.triviaWidth (gap ++ s) = gap.length := by
  induction h with
  | nil =>
    have hcomment : Lexeme.comment? s = none := comment?_eq_none fun c hc =>
      ⟨fun he => hs c hc (.inr (.inl he)), fun he => hs c hc (.inr (.inr he))⟩
    have hhead : ∀ c ∈ s.head?, isBlank c = false := fun c hc =>
      Bool.eq_false_iff.mpr fun hblank => hs c hc (.inl hblank)
    rw [List.nil_append, triviaWidth_of_head hhead, hcomment]
    rfl
  | blank hblank _ ih =>
    rw [List.cons_append, triviaWidth_blank _ hblank, ih]
    rfl
  | @block inner gap hinner _ ih =>
    have hcomment := blockComment?_eq (s := gap ++ s) hinner
    rw [List.append_assoc, triviaWidth_comment (c := '/') rfl (by decide) hcomment, ih]
    simp only [List.length_append]
  | @line start inner gap hstart hinner _ ih =>
    have hcomment := lineComment?_eq (s := gap ++ s) hstart hinner
    have hnewline : isBlank '\n' = true := by decide
    have hhead : ∃ c, (start ++ inner).head? = some c ∧ isBlank c = false := by
      rcases hstart with rfl | rfl
      · exact ⟨'#', rfl, by decide⟩
      · exact ⟨'/', rfl, by decide⟩
    obtain ⟨c, hc, hblank⟩ := hhead
    rw [List.append_assoc, List.cons_append, triviaWidth_comment hc hblank hcomment,
      triviaWidth_blank _ hnewline, ih]
    simp only [List.length_append, List.length_cons]

/-! ## Texts of tokens -/

theorem isBlank_space : isBlank ' ' = true := by decide

theorem Trivia.of_blank {c : Char} {s : List Char} (hc : isBlank c = true) (h : Trivia (c :: s)) :
    Trivia s := by
  generalize hs : c :: s = s' at h
  cases h with
  | nil => cases hs
  | blank _ h =>
    cases hs
    exact h
  | block =>
    cases hs
    exact absurd hc (by decide)
  | line hstart =>
    rcases hstart with rfl | rfl
    · cases hs
      exact absurd hc (by decide)
    · cases hs
      exact absurd hc (by decide)

/-- A blank more in front of a gap. -/
theorem gap_cons_iff {t : Token} {c : Char} {gap : List Char} (hc : isBlank c = true) :
    Gap t (c :: gap) ↔ Gap t gap := by
  unfold Gap
  split
  · simp [hc]
  · exact ⟨Trivia.of_blank hc, .blank hc⟩

theorem Gap.nil (t : Token) : Gap t [] := by
  unfold Gap
  split
  · simp
  · exact .nil

theorem Laid.ended {ts : List Token} {s : List Char} (h : Laid ts s) : Ended s := by
  cases h with
  | nil hblank =>
    intro c hc
    exact .inl (hblank c (List.mem_of_mem_head? hc))
  | cons hne hgap _ =>
    rw [List.append_assoc]
    exact hgap.trivia.ended hne

theorem Laid.blank {ts : List Token} {s : List Char} (h : Laid ts s) : Laid ts (' ' :: s) := by
  cases h with
  | nil hblank => exact .nil (List.forall_mem_cons.mpr ⟨isBlank_space, hblank⟩)
  | @cons t ts gap s _ hgap hlaid =>
    exact Laid.cons (List.cons_ne_nil ' ' gap) ((gap_cons_iff isBlank_space).mpr hgap) hlaid

/-- A single blank is a gap. -/
theorem Laid.of_text {t : Token} {ts : List Token} {s : List Char} (h : Laid ts s) :
    Laid (t :: ts) (' ' :: (t.text ++ s)) :=
  Laid.cons (List.cons_ne_nil ' ' []) ((gap_cons_iff isBlank_space).mpr (Gap.nil t)) h

theorem Laid.split {t : Token} {ts : List Token} {s : List Char} (h : Laid (t :: ts) (' ' :: s)) :
    ∃ gap rest, s = gap ++ (t.text ++ rest) ∧ Gap t gap ∧ Laid ts rest := by
  generalize hs : ' ' :: s = s' at h
  cases h with
  | @cons _ _ gap rest hne hgap hlaid =>
    cases gap with
    | nil => exact absurd rfl hne
    | cons c gap =>
      rw [List.append_assoc, List.cons_append] at hs
      obtain ⟨rfl, rfl⟩ := List.cons.inj hs
      exact ⟨gap, rest, rfl, (gap_cons_iff isBlank_space).mp hgap, hlaid⟩

theorem Laid.blanks {s : List Char} (h : Laid [] (' ' :: s)) : ∀ c ∈ s, isBlank c = true := by
  cases h with
  | nil hblank => exact (List.forall_mem_cons.mp hblank).2

end ThriftRpc.Idl.Grammar
