import ThriftRpc.Proofs.Idl.Lexeme
import ThriftRpc.Proofs.Idl.Width
import ThriftRpc.Text.Place

/-!
# Where a text literal ends

What is spelled between two quotes is what leaves the second quote the first that no escape takes
(`spelled_iff_closes`), and a literal is read up to just behind that quote. So a text that is put
between quotes, with its backslashes and quotes escaped, is read back (`literal_exact`).
-/

namespace ThriftRpc.Idl.Grammar

open Text (utf8Length)

variable {quote c : Char} {before body text s : List Char}

/-- Whether a character belongs to an escape, where what lies between the opening quote and the
character is given from its end: the backslash in front of it belongs to none itself. -/
def taken : List Char → Char → Bool
  | '\\' :: before, c => (Lexeme.unescape? c).isSome && !taken before '\\'
  | _, _ => false

/-- Behind `before`, given from its end, comes `body`; of the quotes up to the one behind `body`
this alone is free of an escape. -/
structure Closes (quote : Char) (before body : List Char) : Prop where
  free : taken (body.reverse ++ before) quote = false
  escaped : ∀ front rest, body = front ++ quote :: rest →
    taken (front.reverse ++ before) quote = true

theorem taken_of_ne (hc : c ≠ '\\') (d : Char) : taken (c :: before) d = false := by
  unfold taken
  split
  · next heq => exact absurd (List.cons.inj heq).1 hc
  · rfl

theorem taken_backslash (h : taken before '\\' = false) :
    taken ('\\' :: before) c = (Lexeme.unescape? c).isSome := by
  rw [taken, h, Bool.not_false, Bool.and_true]

theorem closes_nil : Closes quote before [] ↔ taken before quote = false :=
  ⟨fun h => h.free, fun h => ⟨h, fun front rest hbody => by cases front <;> cases hbody⟩⟩

theorem closes_cons : Closes quote before (c :: body) ↔
    (c = quote → taken before quote = true) ∧ Closes quote (c :: before) body := by
  have hreverse (front : List Char) :
      (c :: front).reverse ++ before = front.reverse ++ c :: before := by simp
  constructor
  · intro h
    refine ⟨fun hc => h.escaped [] body (by rw [hc]; rfl), hreverse body ▸ h.free, ?_⟩
    rintro front rest rfl
    exact hreverse front ▸ h.escaped (c :: front) rest rfl
  · rintro ⟨hhead, htail⟩
    refine ⟨(hreverse body).symm ▸ htail.free, fun front rest hbody => ?_⟩
    cases front with
    | nil => exact hhead (List.cons.inj hbody).1
    | cons d front =>
      obtain ⟨rfl, rfl⟩ := List.cons.inj hbody
      exact (hreverse front).symm ▸ htail.escaped front rest rfl

/-! ## What can be spelled -/

theorem mem_of_unescape? {meaning : Char} (h : Lexeme.unescape? c = some meaning) :
    (c, meaning) ∈ escapes := by
  unfold Lexeme.unescape? at h
  split at h <;> cases h <;> decide

theorem not_mem_of_unescape? (h : Lexeme.unescape? c = none) : c ∉ escapes.map Prod.fst := by
  intro hmem
  obtain ⟨⟨_, meaning⟩, hpair, rfl⟩ := List.mem_map.mp hmem
  cases h.symm.trans (unescape?_of_mem hpair)

/-- Behind an escape nothing is taken. -/
theorem taken_behind {meaning : Char} (hslash : taken before '\\' = false)
    (hletter : Lexeme.unescape? c = some meaning) (d : Char) :
    taken (c :: '\\' :: before) d = false := by
  by_cases hc : c = '\\'
  · rw [hc, taken, taken_backslash hslash, ← hc, hletter, Option.isSome_some, Bool.not_true,
      Bool.and_false]
  · exact taken_of_ne hc d

section Quotes

variable (hquote : quote = '"' ∨ quote = '\'')
include hquote

theorem quote_ne_backslash : '\\' ≠ quote := by
  rcases hquote with rfl | rfl <;> decide

theorem unescape?_quote : (Lexeme.unescape? quote).isSome = true := by
  rcases hquote with rfl | rfl <;> rfl

theorem Spelled.closes (h : Spelled quote body text)
    (hahead : ∀ c ∈ (body ++ [quote]).head?, taken before c = false) :
    Closes quote before body := by
  have hslash := quote_ne_backslash hquote
  -- The scan of a body begins anew behind each step, where no escape takes what lies ahead.
  induction h generalizing before with
  | nil => exact closes_nil.mpr (hahead quote rfl)
  | plain hne hplain _ ih =>
    exact closes_cons.mpr ⟨fun heq => absurd heq hne, ih fun d _ => taken_of_ne hplain d⟩
  | @escape letter meaning body text hmem _ ih =>
    have hfree : taken before '\\' = false := hahead _ rfl
    have hletter := unescape?_of_mem hmem
    refine closes_cons.mpr ⟨fun heq => absurd heq hslash, closes_cons.mpr ⟨fun _ => ?_, ?_⟩⟩
    · rw [taken_backslash hfree, unescape?_quote hquote]
    · exact ih fun d _ => taken_behind hfree hletter d
  | @backslash c body text hmem _ ih =>
    have hfree : taken before '\\' = false := hahead _ rfl
    refine closes_cons.mpr ⟨fun heq => absurd heq hslash, ih ?_⟩
    rintro d ⟨⟩
    rw [taken_backslash hfree, unescape?_of_not_mem hmem]
    rfl

theorem Closes.exists_spelled (h : Closes quote before body)
    (hahead : ∀ c ∈ (body ++ [quote]).head?, taken before c = false) :
    ∃ text, Spelled quote body text := by
  obtain ⟨n, hn⟩ : ∃ n, body.length ≤ n := ⟨_, Nat.le_refl _⟩
  -- An escape takes two characters at once, so the induction is on a bound of the length.
  induction n generalizing before body with
  | zero =>
    obtain rfl := List.length_eq_zero_iff.mp (Nat.le_zero.mp hn)
    exact ⟨[], .nil⟩
  | succ n ih =>
    match body with
    | [] => exact ⟨[], .nil⟩
    | c :: body =>
      rw [List.length_cons, Nat.succ_le_succ_iff] at hn
      obtain ⟨hhead, htail⟩ := closes_cons.mp h
      have hfree : taken before c = false := hahead c rfl
      have hne : c ≠ quote := by
        rintro rfl
        cases hfree.symm.trans (hhead rfl)
      by_cases hc : c = '\\'
      · subst hc
        match body with
        | [] =>
          have hend := closes_nil.mp htail
          rw [taken_backslash hfree, unescape?_quote hquote] at hend
          cases hend
        | d :: body =>
          cases hletter : Lexeme.unescape? d with
          | some meaning =>
            obtain ⟨text, htext⟩ := ih (closes_cons.mp htail).2
              (fun e _ => taken_behind hfree hletter e) (Nat.le_of_succ_le hn)
            exact ⟨meaning :: text, .escape (mem_of_unescape? hletter) htext⟩
          | none =>
            have hbehind : taken ('\\' :: before) d = false := by
              rw [taken_backslash hfree, hletter]
              rfl
            obtain ⟨text, htext⟩ := ih htail (by rintro e ⟨⟩; exact hbehind) hn
            exact ⟨'\\' :: text, .backslash (not_mem_of_unescape? hletter) htext⟩
      · obtain ⟨text, htext⟩ := ih htail (fun d _ => taken_of_ne hc d) hn
        exact ⟨c :: text, .plain hne hc htext⟩

theorem spelled_iff_closes : (∃ text, Spelled quote body text) ↔ Closes quote [] body := by
  have hahead : ∀ c ∈ (body ++ [quote]).head?, taken [] c = false := fun _ _ => rfl
  exact ⟨fun ⟨_, h⟩ => h.closes hquote hahead, fun h => h.exists_spelled hquote hahead⟩

/-! ## What is read -/

/-- A body that is read has been spelled, up to the first quote behind it. -/
theorem spelled_of_literalBody? {n : Nat} (h : Lexeme.literalBody? quote s = some (text, n)) :
    ∃ body rest, s = body ++ quote :: rest ∧ Spelled quote body text ∧ n = body.length + 1 := by
  fun_induction Lexeme.literalBody? quote s generalizing text n with
  | case1 => cases h
  | case2 letter s meaning hmeaning ih =>
    obtain ⟨⟨text, n⟩, hread, heq⟩ := Option.map_eq_some_iff.mp h
    obtain ⟨body, rest, rfl, hspelled, rfl⟩ := ih hread
    cases heq
    exact ⟨'\\' :: letter :: body, rest, rfl, .escape (mem_of_unescape? hmeaning) hspelled, rfl⟩
  | case3 c s hnone ih =>
    obtain ⟨⟨text, n⟩, hread, heq⟩ := Option.map_eq_some_iff.mp h
    obtain ⟨body, rest, hs, hspelled, rfl⟩ := ih hread
    cases heq
    -- The quote would be an escape, so the character behind the backslash is part of the body.
    cases body with
    | nil =>
      obtain ⟨rfl, -⟩ := List.cons.inj hs
      have hsome := unescape?_quote hquote
      rw [hnone] at hsome
      cases hsome
    | cons d body =>
      obtain ⟨rfl, rfl⟩ := List.cons.inj hs
      have hmem : c ∉ escapes.map Prod.fst := not_mem_of_unescape? hnone
      exact ⟨'\\' :: c :: body, rest, rfl, .backslash hmem hspelled, rfl⟩
  | case4 s hslash =>
    cases h
    exact ⟨[], s, rfl, .nil, rfl⟩
  | case5 c s hslash hne ih =>
    obtain ⟨⟨text, n⟩, hread, heq⟩ := Option.map_eq_some_iff.mp h
    obtain ⟨body, rest, rfl, hspelled, rfl⟩ := ih hread
    cases heq
    have hplain : c ≠ '\\' := fun hc => by
      cases body with
      | nil => exact hslash _ _ hc rfl
      | cons d body => exact hslash _ _ hc rfl
    exact ⟨c :: body, rest, rfl, .plain hne hplain hspelled, rfl⟩

end Quotes

/-- What is recognised is a literal. -/
theorem literal?_iff {input : List Char} {n : Nat} : Lexeme.literal? input = some (text, n) ↔
    ∃ (l : Literal) (rest : List Char), input = (Token.literal l).text ++ rest ∧
      l.value = text ∧ (Token.literal l).text.length = n := by
  constructor
  · intro h
    unfold Lexeme.literal? at h
    split at h
    · next quote s =>
      split at h
      · next hquote =>
        obtain ⟨⟨text, n⟩, hread, heq⟩ := Option.map_eq_some_iff.mp h
        obtain ⟨body, rest, rfl, hspelled, rfl⟩ := spelled_of_literalBody? hquote hread
        cases heq
        refine ⟨⟨quote, body, _, hquote, hspelled⟩, rest, ?_, rfl, ?_⟩
        · simp [Token.text]
        · simp [Token.text]
      · cases h
    · cases h
  · rintro ⟨l, rest, rfl, rfl, rfl⟩
    exact literal?_eq l rest

/-- The ways to write a character between two quotes: a backslash and a quote of the same kind are
escaped, and line breaks and tabs may be. -/
inductive Escaping (quote : Char) : Char → List Char → Prop
  | needed {c : Char} : c = '\\' ∨ c = quote → Escaping quote c ['\\', c]
  | plain {c : Char} : c ≠ '\\' → c ≠ quote → Escaping quote c [c]
  | newline : Escaping quote '\n' ['\\', 'n']
  | carriageReturn : Escaping quote '\r' ['\\', 'r']
  | tab : Escaping quote '\t' ['\\', 't']

theorem spelled_of_escaping (hquote : quote = '"' ∨ quote = '\'') {pieces : List (List Char)}
    (h : List.Forall₂ (Escaping quote) s pieces) : Spelled quote pieces.flatten s := by
  induction h with
  | nil => exact .nil
  | cons hpiece _ ih =>
    cases hpiece with
    | @needed c hc =>
      refine .escape ?_ ih
      rcases hc with rfl | rfl
      · decide
      · rcases hquote with rfl | rfl <;> decide
    | plain hslash hne => exact .plain hne hslash ih
    | newline => exact .escape (by decide) ih
    | carriageReturn => exact .escape (by decide) ih
    | tab => exact .escape (by decide) ih

/-- The text of the literal at the start of an input, and how many bytes the literal takes. -/
def literalBytes? (input : List Char) : Option (List Char × Nat) :=
  (Lexeme.literal? input).map fun p => (p.1, utf8Length (input.take p.2))

theorem literalBytes?_iff {input : List Char} {size : Nat} :
    literalBytes? input = some (text, size) ↔ ∃ (l : Literal) (rest : List Char),
      input = (Token.literal l).text ++ rest ∧ l.value = text ∧
        utf8Length (Token.literal l).text = size := by
  unfold literalBytes?
  constructor
  · intro h
    obtain ⟨⟨text, n⟩, hread, heq⟩ := Option.map_eq_some_iff.mp h
    obtain ⟨l, rest, rfl, rfl, rfl⟩ := literal?_iff.mp hread
    cases heq
    exact ⟨l, rest, rfl, rfl, by rw [List.take_left]⟩
  · rintro ⟨l, rest, rfl, rfl, rfl⟩
    rw [literal?_eq, Option.map_some, List.take_left]

/-- A text between two quotes, its backslashes and quotes of that kind escaped, is read back with
the length of the whole, whatever follows. And a literal is read exactly off a quote that is closed:
by the first quote of its kind that no escape takes, just behind which the literal ends. -/
theorem literal_exact :
    (∀ (quote : Char) (s : List Char) (pieces : List (List Char)) (rest : List Char),
      (quote = '"' ∨ quote = '\'') → List.Forall₂ (Escaping quote) s pieces →
        literalBytes? ((quote :: pieces.flatten ++ [quote]) ++ rest) =
          some (s, utf8Length (quote :: pieces.flatten ++ [quote]))) ∧
    ∀ (input : List Char) (size : Nat), (∃ text, literalBytes? input = some (text, size)) ↔
      ∃ (quote : Char) (body rest : List Char), (quote = '"' ∨ quote = '\'') ∧
        input = (quote :: body ++ [quote]) ++ rest ∧ Closes quote [] body ∧
          size = utf8Length (quote :: body ++ [quote]) := by
  constructor
  · intro quote s pieces rest hquote hpieces
    exact literalBytes?_iff.mpr
      ⟨⟨quote, pieces.flatten, s, hquote, spelled_of_escaping hquote hpieces⟩, rest, rfl, rfl, rfl⟩
  · intro input size
    constructor
    · rintro ⟨text, h⟩
      obtain ⟨⟨quote, body, text, hquote, hspelled⟩, rest, rfl, rfl, rfl⟩ := literalBytes?_iff.mp h
      exact ⟨quote, body, rest, hquote, rfl, (spelled_iff_closes hquote).mp ⟨text, hspelled⟩, rfl⟩
    · rintro ⟨quote, body, rest, hquote, rfl, hcloses, rfl⟩
      obtain ⟨text, hspelled⟩ := (spelled_iff_closes hquote).mpr hcloses
      exact ⟨text, literalBytes?_iff.mpr
        ⟨⟨quote, body, text, hquote, hspelled⟩, rest, rfl, rfl, rfl⟩⟩

/-- A text with characters of each kind, and a quote that an escape takes, closed and not. -/
theorem literal_exact_sample :
    literalBytes? ['"', 'é', '\\', '"', '\\', '\\', '\\', 'n', '\'', '"', '"'] =
        some (['é', '"', '\\', '\n', '\''], 11) ∧
      (∃ text, literalBytes? ['\'', '\\', '\'', '\\', 'q', '\'', 'x'] = some (text, 6)) ∧
      ¬ ∃ text, literalBytes? ['"', 'a', '\\', '"'] = some (text, 4) := by
  obtain ⟨hread, hclosed⟩ := literal_exact
  refine ⟨?_, (hclosed _ _).mpr ?_, fun h => ?_⟩
  · refine hread '"' _ [['é'], ['\\', '"'], ['\\', '\\'], ['\\', 'n'], ['\'']] ['"']
      (.inl rfl) ?_
    exact .cons (.plain (by decide) (by decide)) <| .cons (.needed (.inr rfl)) <|
      .cons (.needed (.inl rfl)) <| .cons .newline <|
      .cons (.plain (by decide) (by decide)) .nil
  · refine ⟨'\'', ['\\', '\'', '\\', 'q'], ['x'], .inr rfl, rfl, ?_, rfl⟩
    simp only [closes_cons, closes_nil]
    decide
  · obtain ⟨quote, body, rest, -, hinput, hcloses, -⟩ := (hclosed _ _).mp h
    rcases body with _ | ⟨_, _ | ⟨_, _ | ⟨_, body⟩⟩⟩
    · cases hinput
    · cases hinput
    · cases hinput
      cases hcloses.free
    · simp at hinput

end ThriftRpc.Idl.Grammar
