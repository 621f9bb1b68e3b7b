import ThriftRpc.Idl.Parser.Token
import ThriftRpc.Proofs.Idl.Layout
import ThriftRpc.Proofs.Text.Integer

/-!
# Recognising a token

Each recogniser takes exactly a token of its own kind and refuses the others, whatever the gap
behind the token.
-/

namespace ThriftRpc.Idl.Grammar

open Text (digitsValue)
open Lexeme (isNameChar)

theorem HasNameForm.eq_cons {s : List Char} (h : HasNameForm s) : ∃ c cs, s = c :: cs ∧
    (c.isAlpha = true ∨ c = '_') ∧ ∀ x ∈ c :: cs, isNameChar x = true := by
  cases s with
  | nil => cases h
  | cons c cs =>
    refine ⟨c, cs, rfl, h.1, List.forall_mem_cons.mpr ⟨?_, h.2⟩⟩
    rcases h.1 with hc | rfl
    · exact isNameChar_of_isAlpha hc
    · decide

theorem Keyword.form (k : Keyword) : HasNameForm k.text.toList := by
  cases k <;> decide

theorem Keyword.mem_reserved (k : Keyword) : k.text ∈ reserved := by
  cases k <;> decide

theorem Keyword.text_injective {k l : Keyword} (h : k.text = l.text) : k = l := by
  cases k <;> cases l <;> first | rfl | exact absurd h (by decide)

/-- A keyword is recognised as the whole of a word. -/
theorem keyword_iff {w : String} {v s : List Char} (hw : ∀ c ∈ w.toList, isNameChar c = true)
    (hv : ∀ c ∈ v, isNameChar c = true) (hs : Ended s) :
    Lexeme.keyword w (v ++ s) = true ↔ w.toList = v := by
  unfold Lexeme.keyword
  rw [Bool.and_eq_true, List.isPrefixOf_iff_prefix, ← String.length_toList]
  constructor
  · rintro ⟨⟨rest, hrest⟩, hend⟩
    rw [← hrest, List.drop_left] at hend
    have htake : (w.toList ++ rest).takeWhile isNameChar = w.toList := by
      refine takeWhile_append hw fun c hc => ?_
      cases rest with
      | nil => cases hc
      | cons d rest =>
        cases hc
        simpa using hend
    rw [← htake, hrest]
    exact takeWhile_ended hv (fun c => not_isNameChar_of_startsGap) hs
  · rintro rfl
    refine ⟨⟨s, rfl⟩, ?_⟩
    rw [List.drop_left]
    cases s with
    | nil => rfl
    | cons c s =>
      have hc := not_isNameChar_of_startsGap (hs c rfl)
      simp [hc]

theorem identifier?_eq {w s : List Char} (hw : HasNameForm w) (hs : Ended s) :
    Lexeme.identifier? (w ++ s) = some w := by
  obtain ⟨c, cs, rfl, hc, hall⟩ := hw.eq_cons
  have htake : (cs ++ s).takeWhile isNameChar = cs :=
    takeWhile_ended (fun x hx => hall x (List.mem_cons_of_mem _ hx))
      (fun c => not_isNameChar_of_startsGap) hs
  rw [List.cons_append]
  simp only [Lexeme.identifier?, if_pos hc, htake]

theorem unescape?_of_mem {letter c : Char} (h : (letter, c) ∈ escapes) :
    Lexeme.unescape? letter = some c := by
  simp only [escapes, List.mem_cons, List.not_mem_nil, or_false, Prod.mk.injEq] at h
  rcases h with ⟨rfl, rfl⟩ | ⟨rfl, rfl⟩ | ⟨rfl, rfl⟩ | ⟨rfl, rfl⟩ | ⟨rfl, rfl⟩ | ⟨rfl, rfl⟩ <;> rfl

theorem unescape?_of_not_mem {c : Char} (h : c ∉ escapes.map Prod.fst) :
    Lexeme.unescape? c = none := by
  unfold Lexeme.unescape?
  split
  all_goals first | rfl | exact absurd (by decide) h

/-- A character that is no backslash closes the literal or stands for itself. -/
theorem literalBody?_cons {quote c : Char} (hc : c ≠ '\\') (s : List Char) :
    Lexeme.literalBody? quote (c :: s) = if c = quote then some ([], 1)
      else (Lexeme.literalBody? quote s).map fun p => (c :: p.1, p.2 + 1) :=
  Lexeme.literalBody?.eq_3 quote c s fun _ _ he => absurd he hc

theorem literalBody?_eq {quote : Char} {body value : List Char} (hq : quote ≠ '\\')
    (h : Spelled quote body value) (s : List Char) :
    Lexeme.literalBody? quote (body ++ quote :: s) = some (value, body.length + 1) := by
  induction h with
  | nil =>
    rw [List.nil_append, literalBody?_cons hq, if_pos rfl]
    rfl
  | plain hquote hslash _ ih =>
    rw [List.cons_append, literalBody?_cons hslash, if_neg hquote, ih]
    rfl
  | escape hmem _ ih =>
    simp only [List.cons_append, Lexeme.literalBody?, unescape?_of_mem hmem, ih]
    rfl
  | backslash hmem _ ih =>
    rw [List.cons_append] at ih
    simp only [List.cons_append, Lexeme.literalBody?, unescape?_of_not_mem hmem, ih]
    rfl

theorem literal?_eq (l : Literal) (s : List Char) :
    Lexeme.literal? ((Token.literal l).text ++ s) =
      some (l.value, (Token.literal l).text.length) := by
  have hslash : l.quote ≠ '\\' := by
    rcases l.isQuote with h | h <;> rw [h] <;> decide
  have hbody := literalBody?_eq hslash l.spelled s
  simp only [Token.text, List.cons_append, List.append_assoc, List.nil_append, Lexeme.literal?,
    if_pos l.isQuote, hbody, Option.map_some, List.length_cons, List.length_append,
    List.length_nil]

/-! ## Numbers -/

theorem digits?_eq {ds s : List Char} (hne : ds ≠ []) (hds : ∀ c ∈ ds, c.isDigit = true)
    (hs : Ended s) : Lexeme.digits? (ds ++ s) = some ds := by
  unfold Lexeme.digits? Lexeme.nonempty?
  rw [takeWhile_ended hds (fun c => not_isDigit_of_startsGap) hs, if_neg hne]

theorem digits?_eq_none {s : List Char} (hs : ∀ c ∈ s.head?, c.isDigit = false) :
    Lexeme.digits? s = none := by
  cases s with
  | nil => rfl
  | cons c s =>
    unfold Lexeme.digits? Lexeme.nonempty?
    simp [hs c rfl]

/-- The sign of a numeral is split off in front of its digits. -/
theorem sign_eq {ds s : List Char} (sign : Sign) (hne : ds ≠ [])
    (hds : ∀ c ∈ ds, c.isDigit = true) : Lexeme.sign (sign.text ++ (ds ++ s)) = sign.text := by
  cases sign with
  | plus => rfl
  | minus => rfl
  | absent =>
    cases ds with
    | nil => exact absurd rfl hne
    | cons d ds =>
      have hcode := toNat_of_isDigit (hds d List.mem_cons_self)
      have hsign : ¬ (d = '+' ∨ d = '-') := by
        rintro (rfl | rfl)
        · revert hcode; decide
        · revert hcode; decide
      exact if_neg hsign

theorem integer?_eq (n : Numeral) {s : List Char} (hs : Ended s) :
    Lexeme.integer? ((Token.numeral n).text ++ s) = some (Token.numeral n).text := by
  unfold Lexeme.integer?
  simp only [Token.text, List.append_assoc, sign_eq n.sign n.nonempty n.decimal, List.drop_left,
    digits?_eq n.nonempty n.decimal hs]
  rfl

/-- A numeral has neither a fraction nor an exponent. -/
theorem double?_numeral (n : Numeral) {s : List Char} (hs : Ended s) :
    Lexeme.double? ((Token.numeral n).text ++ s) = none := by
  have htail : Lexeme.fraction? s = none ∧ Lexeme.exponent? s = none := by
    cases s with
    | nil => exact ⟨rfl, rfl⟩
    | cons c s =>
      have hc := not_isNameChar_of_startsGap (hs c rfl)
      have hne {x : Char} (hx : isNameChar x = true) : c ≠ x := by
        rintro rfl
        rw [hc] at hx
        cases hx
      have hpoint : c ≠ '.' := hne (by decide)
      have hexponent : ¬ (c = 'e' ∨ c = 'E') :=
        not_or.mpr ⟨hne (by decide), hne (by decide)⟩
      exact ⟨by simp [Lexeme.fraction?, hpoint], if_neg hexponent⟩
  unfold Lexeme.double?
  simp only [Token.text, List.append_assoc, sign_eq n.sign n.nonempty n.decimal, List.drop_left,
    digits?_eq n.nonempty n.decimal hs, htail.1, htail.2]
  rfl

theorem hexDigits?_numeral (n : Numeral) {s : List Char} (hs : Ended s) :
    Lexeme.hexDigits? ((Token.numeral n).text ++ s) = none := by
  obtain ⟨sign, digits, hne, hds, -⟩ := n
  unfold Lexeme.hexDigits?
  split
  · next rest heq =>
    exfalso
    cases sign with
    | plus => cases heq
    | minus => cases heq
    | absent =>
      cases digits with
      | nil => exact hne rfl
      | cons d digits =>
        have hx : digits ++ s = 'x' :: rest := List.tail_eq_of_cons_eq heq
        cases digits with
        | nil =>
          have hgap : StartsGap 'x' := hs 'x' (by rw [List.nil_append] at hx; rw [hx]; rfl)
          exact absurd (not_isNameChar_of_startsGap hgap) (by decide)
        | cons d' digits =>
          have hd' : d' = 'x' := List.head_eq_of_cons_eq hx
          have hdigit := hds d' (by simp)
          rw [hd'] at hdigit
          exact absurd hdigit (by decide)
  · rfl

theorem textInteger?_numeral (n : Numeral) : Text.integer? (Token.numeral n).text =
    some (n.sign.apply (digitsValue n.digits)) := by
  obtain ⟨sign, digits, hne, hds, -⟩ := n
  have hall : digits ≠ [] ∧ digits.all Char.isDigit = true := ⟨hne, List.all_eq_true.mpr hds⟩
  have hsplit : Text.splitSign (sign.text ++ digits) = (decide (sign = .minus), digits) := by
    cases sign with
    | absent => exact Text.splitSign_digits hds
    | plus => rfl
    | minus => rfl
  unfold Text.integer?
  simp only [Token.text, hsplit]
  rw [if_pos hall]
  cases sign <;> rfl

theorem integerLexeme?_eq (n : Numeral) {s : List Char} (hs : Ended s) :
    Parser.integerLexeme? ((Token.numeral n).text ++ s) =
      some (n.value, (Token.numeral n).text.length) := by
  have hvalue : Lexeme.integerValue? (Token.numeral n).text = some n.value := by
    have hhex := hexDigits?_numeral n (s := []) (fun c hc => by cases hc)
    rw [List.append_nil] at hhex
    unfold Lexeme.integerValue?
    rw [hhex]
    simp only [textInteger?_numeral n]
    rw [if_pos n.fits]
    rfl
  unfold Parser.integerLexeme? Lexeme.hex?
  rw [hexDigits?_numeral n hs, integer?_eq n hs]
  simp [hvalue]

/-- Neither a digit, a sign nor a point. -/
def Numberless (c : Char) : Prop := c.isDigit = false ∧ c ≠ '+' ∧ c ≠ '-' ∧ c ≠ '.'

instance (c : Char) : Decidable (Numberless c) := inferInstanceAs (Decidable (_ ∧ _))

theorem sign_eq_nil {c : Char} {s : List Char} (hc : Numberless c) : Lexeme.sign (c :: s) = [] :=
  if_neg (not_or.mpr ⟨hc.2.1, hc.2.2.1⟩)

theorem digits?_numberless {c : Char} {s : List Char} (hc : Numberless c) :
    Lexeme.digits? (c :: s) = none := by
  refine digits?_eq_none fun x hx => ?_
  cases hx
  exact hc.1

theorem double?_eq_none {c : Char} {s : List Char} (hc : Numberless c) :
    Lexeme.double? (c :: s) = none := by
  have hpoint : Lexeme.fraction? (c :: s) = none := by simp [Lexeme.fraction?, hc.2.2.2]
  unfold Lexeme.double?
  simp only [sign_eq_nil hc, List.length_nil, List.drop_zero, digits?_numberless hc, hpoint]
  rfl

theorem integerLexeme?_eq_none {c : Char} {s : List Char} (hc : Numberless c) :
    Parser.integerLexeme? (c :: s) = none := by
  have hhex : Lexeme.hexDigits? (c :: s) = none := by
    have hzero : c ≠ '0' := by
      rintro rfl
      exact absurd hc.1 (by decide)
    simp [Lexeme.hexDigits?, hzero]
  have hdecimal : Lexeme.integer? (c :: s) = none := by
    unfold Lexeme.integer?
    simp only [sign_eq_nil hc, List.length_nil, List.drop_zero, digits?_numberless hc]
    rfl
  unfold Parser.integerLexeme? Lexeme.hex?
  rw [hhex, hdecimal]
  rfl

/-! ## Tokens -/

/-- The kinds of characters that tokens begin with. -/
inductive Lead where
  | letter
  | figure
  | quote
  | mark
  | other
  deriving DecidableEq

def lead (c : Char) : Lead :=
  if c.isAlpha = true ∨ c = '_' then .letter
  else if c.isDigit = true ∨ c = '+' ∨ c = '-' then .figure
  else if c = '"' ∨ c = '\'' then .quote
  else if c ∈ "\x7b\x7d()[]<>,;:=*".toList then .mark
  else .other

theorem lead_of_letter {c : Char} (h : c.isAlpha = true ∨ c = '_') : lead c = .letter := if_pos h

theorem lead_of_isDigit {c : Char} (h : c.isDigit = true) : lead c = .figure := by
  have hcode := toNat_of_isDigit h
  have hletter : ¬ (c.isAlpha = true ∨ c = '_') := by
    rintro (halpha | rfl)
    · have := toNat_of_isAlpha halpha
      omega
    · revert hcode; decide
  rw [lead, if_neg hletter, if_pos (.inl h)]

theorem lead_of_startsGap {c : Char} (h : StartsGap c) : lead c = .other := by
  have hname := not_isNameChar_of_startsGap h
  have hletter : ¬ (c.isAlpha = true ∨ c = '_') := by
    rintro (halpha | rfl)
    · rw [isNameChar_of_isAlpha halpha] at hname
      cases hname
    · revert hname; decide
  have hfigure : ¬ (c.isDigit = true ∨ c = '+' ∨ c = '-') := by
    rintro (hdigit | rfl | rfl)
    · rw [not_isDigit_of_startsGap h] at hdigit
      cases hdigit
    · revert h; decide
    · revert h; decide
  have hquote : ¬ (c = '"' ∨ c = '\'') := by
    rintro (rfl | rfl)
    · revert h; decide
    · revert h; decide
  have hmark : c ∉ "\x7b\x7d()[]<>,;:=*".toList := by
    have hmarks : ("\x7b\x7d()[]<>,;:=*".toList.all fun x => !decide (StartsGap x)) = true := by
      decide
    intro hmem
    simpa [h] using List.all_eq_true.mp hmarks c hmem
  rw [lead, if_neg hletter, if_neg hfigure, if_neg hquote, if_neg hmark]

theorem numberless_of_lead {c : Char} (hfigure : lead c ≠ .figure) (hother : lead c ≠ .other) :
    Numberless c := by
  refine ⟨Bool.eq_false_iff.mpr fun h => hfigure (lead_of_isDigit h), ?_, ?_, ?_⟩
  · rintro rfl
    exact hfigure rfl
  · rintro rfl
    exact hfigure rfl
  · rintro rfl
    exact hother rfl

theorem Symbol.toList_text (x : Symbol) : ∃ c, x.text.toList = [c] ∧ lead c = .mark := by
  cases x <;> exact ⟨_, rfl, by decide⟩

theorem Symbol.text_injective {x y : Symbol} (h : x.text = y.text) : x = y := by
  cases x <;> cases y <;> first | rfl | exact absurd h (by decide)

namespace Token

def lead : Token → Lead
  | keyword _ | name _ => .letter
  | symbol _ => .mark
  | numeral _ => .figure
  | literal _ => .quote

theorem lead_ne_other (t : Token) : t.lead ≠ .other := by
  cases t <;> exact Lead.noConfusion

theorem text_eq_cons (t : Token) : ∃ c cs, t.text = c :: cs ∧ Grammar.lead c = t.lead := by
  cases t with
  | keyword k =>
    obtain ⟨c, cs, hk, hc, -⟩ := k.form.eq_cons
    exact ⟨c, cs, hk, lead_of_letter hc⟩
  | name n =>
    obtain ⟨c, cs, hn, hc, -⟩ := n.form.eq_cons
    exact ⟨c, cs, hn, lead_of_letter hc⟩
  | symbol x =>
    obtain ⟨c, hx, hc⟩ := x.toList_text
    exact ⟨c, [], hx, hc⟩
  | numeral n =>
    obtain ⟨sign, digits, hne, hds, -⟩ := n
    cases sign with
    | plus => exact ⟨'+', digits, rfl, rfl⟩
    | minus => exact ⟨'-', digits, rfl, rfl⟩
    | absent =>
      cases digits with
      | nil => exact absurd rfl hne
      | cons d ds => exact ⟨d, ds, rfl, lead_of_isDigit (hds d List.mem_cons_self)⟩
  | literal l =>
    refine ⟨l.quote, l.body ++ [l.quote], rfl, ?_⟩
    rcases l.isQuote with h | h <;> rw [h] <;> rfl

theorem text_ne_nil (t : Token) : t.text ≠ [] := by
  obtain ⟨c, cs, ht, -⟩ := t.text_eq_cons
  rw [ht]
  exact List.cons_ne_nil c cs

/-- A token is where the gap before it ends. -/
theorem not_startsGap (t : Token) (s : List Char) : ∀ c ∈ (t.text ++ s).head?, ¬ StartsGap c := by
  obtain ⟨d, ds, ht, hd⟩ := t.text_eq_cons
  intro c hc hgap
  rw [ht] at hc
  cases hc
  exact t.lead_ne_other (hd.symm.trans (lead_of_startsGap hgap))

def word? : Token → Option String
  | keyword k => some k.text
  | name n => some n.text
  | _ => none

def numeral? : Token → Option Numeral
  | numeral n => some n
  | _ => none

def literal? : Token → Option Literal
  | literal l => some l
  | _ => none

theorem text_of_word? {t : Token} {w : String} (h : t.word? = some w) :
    t.text = w.toList ∧ HasNameForm w.toList := by
  cases t with
  | keyword k =>
    cases h
    exact ⟨rfl, k.form⟩
  | name n =>
    cases h
    exact ⟨rfl, n.form⟩
  | _ => cases h

theorem lead_of_word? {t : Token} (h : t.word? = none) : t.lead ≠ .letter := by
  cases t <;> first | exact Lead.noConfusion | cases h

section Recognisers

variable {t : Token} {s : List Char}

theorem identifier?_text (hs : Ended s) :
    Lexeme.identifier? (t.text ++ s) = t.word?.map String.toList := by
  cases hw : t.word? with
  | some w =>
    obtain ⟨ht, hform⟩ := text_of_word? hw
    rw [ht]
    exact identifier?_eq hform hs
  | none =>
    obtain ⟨c, cs, ht, hc⟩ := t.text_eq_cons
    rw [ht]
    exact if_neg fun h => lead_of_word? hw (hc.symm.trans (lead_of_letter h))

theorem keyword_text {w : String} (hw : HasNameForm w.toList) (hs : Ended s) :
    Lexeme.keyword w (t.text ++ s) = true ↔ t.word? = some w := by
  obtain ⟨d, ds, hwd, hd, hall⟩ := hw.eq_cons
  cases hv : t.word? with
  | some v =>
    obtain ⟨ht, hform⟩ := text_of_word? hv
    obtain ⟨_, _, hvc, -, hvall⟩ := hform.eq_cons
    rw [ht, keyword_iff (hwd ▸ hall) (hvc ▸ hvall) hs, String.toList_inj, Option.some.injEq,
      eq_comm]
  | none =>
    obtain ⟨c, cs, ht, hc⟩ := t.text_eq_cons
    have hne : d ≠ c := by
      rintro rfl
      exact lead_of_word? hv (hc.symm.trans (lead_of_letter hd))
    rw [ht]
    simp [Lexeme.keyword, hwd, hne]

theorem isPrefixOf_text (x : Symbol) :
    x.text.toList.isPrefixOf (t.text ++ s) = true ↔ t = .symbol x := by
  obtain ⟨c, cs, ht, hc⟩ := t.text_eq_cons
  obtain ⟨d, hx, hd⟩ := x.toList_text
  have hhead : x.text.toList.isPrefixOf (t.text ++ s) = true ↔ d = c := by
    rw [hx, ht]
    simp [List.isPrefixOf]
  rw [hhead]
  constructor
  · rintro rfl
    cases t with
    | symbol y =>
      obtain ⟨e, hy, -⟩ := y.toList_text
      have hy' : y.text.toList = d :: cs := ht
      rw [hy] at hy'
      cases hy'
      rw [Symbol.text_injective (String.toList_inj.mp (hx.trans hy.symm))]
    | _ => cases hd.symm.trans hc
  · rintro rfl
    have hx' : x.text.toList = c :: cs := ht
    rw [hx] at hx'
    cases hx'
    rfl

theorem literal?_text : Lexeme.literal? (t.text ++ s) =
    t.literal?.map fun l => (l.value, t.text.length) := by
  cases t with
  | literal l => exact literal?_eq l s
  | _ =>
    obtain ⟨c, cs, ht, hc⟩ := text_eq_cons _
    rw [ht]
    refine if_neg ?_
    rintro (rfl | rfl) <;> cases hc

theorem numberless {c : Char} (hc : Grammar.lead c = t.lead) (h : t.numeral? = none) :
    Numberless c := by
  refine numberless_of_lead ?_ (hc ▸ t.lead_ne_other)
  rw [hc]
  cases t <;> first | exact Lead.noConfusion | cases h

theorem double?_text (hs : Ended s) : Lexeme.double? (t.text ++ s) = none := by
  cases hn : t.numeral? with
  | some n =>
    cases t <;> cases hn
    exact double?_numeral n hs
  | none =>
    obtain ⟨c, cs, ht, hc⟩ := t.text_eq_cons
    rw [ht]
    exact double?_eq_none (numberless hc hn)

theorem integerLexeme?_text (hs : Ended s) : Parser.integerLexeme? (t.text ++ s) =
    t.numeral?.map fun n => (n.value, t.text.length) := by
  cases hn : t.numeral? with
  | some n =>
    cases t <;> cases hn
    exact integerLexeme?_eq n hs
  | none =>
    obtain ⟨c, cs, ht, hc⟩ := t.text_eq_cons
    rw [ht]
    exact integerLexeme?_eq_none (numberless hc hn)

end Recognisers

end Token

/-- Every token and every gap takes a character. -/
theorem Laid.length_le {ts : List Token} {s : List Char} (h : Laid ts s) :
    2 * ts.length ≤ s.length := by
  induction h with
  | nil => simp
  | @cons t ts gap s hne _ _ ih =>
    have hgap := List.length_pos_iff.mpr hne
    have htext := List.length_pos_iff.mpr t.text_ne_nil
    simp only [List.length_append, List.length_cons]
    omega

end ThriftRpc.Idl.Grammar
