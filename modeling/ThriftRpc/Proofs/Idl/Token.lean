import ThriftRpc.Proofs.Idl.Lexeme
import ThriftRpc.Proofs.Idl.Running

/-!
# Reading tokens that lie ahead

The parser of a token takes that token off the text, with the gap before it, and refuses any other.
What may be missing is refused as well if the next token is one that comes later.
-/

namespace ThriftRpc.Idl.Parser

open Grammar
open Text (Cursor isBlank)

/-- The tokens `ts` lie ahead of the cursor. Each takes a character, so that a `bound` on the offset
and the number of tokens ahead in sum holds from then on. -/
structure At (src : List Char) (bound : Nat) (ts : List Token) (c : Cursor) : Prop where
  place : c = (Cursor.ofText src).advance c.offset
  bound_le : bound ≤ c.offset + ts.length
  laid : Laid ts (' ' :: c.rest)

/-- They lie ahead without a gap before the first. -/
structure Facing (src : List Char) (bound : Nat) (ts : List Token) (c : Cursor) : Prop
    extends At src bound ts c where
  rest_nil : ts = [] → c.rest = []
  rest_cons : ∀ t ts', ts = t :: ts' → ∃ s, c.rest = t.text ++ s ∧ Laid ts' s

section Ahead

variable {src : List Char} {b : Nat} {t : Token} {ts : List Token} {c : Cursor}

theorem At.length_le (h : At src b ts c) : ts.length ≤ c.rest.length := by
  have hlen := h.laid.length_le
  rw [List.length_cons] at hlen
  omega

theorem At.mono {b' : Nat} (h : At src b ts c) (hb : b' ≤ b) : At src b' ts c :=
  ⟨h.place, hb.trans h.bound_le, h.laid⟩

theorem At.place_advance (h : At src b ts c) (n : Nat) :
    c.advance n = (Cursor.ofText src).advance (c.advance n).offset :=
  calc c.advance n = ((Cursor.ofText src).advance c.offset).advance n := by rw [← h.place]
    _ = (Cursor.ofText src).advance (c.offset + n) := Cursor.advance_advance _ _ _

/-- Over the blanks at the end of the text. -/
theorem At.over_blanks (h : At src b [] c) :
    Facing src b [] (c.advance c.rest.length) := by
  have hrest : (c.advance c.rest.length).rest = [] := by
    rw [Cursor.rest_advance, List.drop_length]
  have hlaid : Laid [] (' ' :: (c.advance c.rest.length).rest) := by
    rw [hrest]
    exact .nil (by simpa using isBlank_space)
  have hbound := h.bound_le
  refine ⟨⟨h.place_advance _, ?_, hlaid⟩, fun _ => hrest, fun _ _ hts => by cases hts⟩
  rw [Cursor.offset_advance]
  omega

/-- Over a gap. -/
theorem At.over_gap {gap s : List Char} (h : At src b (t :: ts) c)
    (hrest : c.rest = gap ++ (t.text ++ s)) (hlaid : Laid ts s) :
    Facing src b (t :: ts) (c.advance gap.length) := by
  have hrest' : (c.advance gap.length).rest = t.text ++ s := by
    rw [Cursor.rest_advance, hrest, List.drop_left]
  have hbound := h.bound_le
  refine ⟨⟨h.place_advance _, ?_, hrest' ▸ hlaid.of_text⟩, fun hts => ?_,
    fun _ _ hts => ?_⟩
  · rw [Cursor.offset_advance]
    omega
  · cases hts
  · cases hts
    exact ⟨s, hrest', hlaid⟩

/-- Over a token. -/
theorem Facing.over_text (h : Facing src b (t :: ts) c) :
    At src b ts (c.advance t.text.length) := by
  obtain ⟨s, hrest, hlaid⟩ := h.rest_cons t ts rfl
  have hrest' : (c.advance t.text.length).rest = s := by
    rw [Cursor.rest_advance, hrest, List.drop_left]
  have hbound := h.bound_le
  have htext := List.length_pos_iff.mpr t.text_ne_nil
  refine ⟨h.place_advance _, ?_, hrest' ▸ hlaid.blank⟩
  rw [List.length_cons] at hbound
  rw [Cursor.offset_advance]
  omega

end Ahead

/-! ## Single tokens -/

section Single

variable {K : Set (Memos → Prop)} {src : List Char} {b : Nat} {t : Token} {ts : List Token}

theorem skipTrivia_reads : Reads K (At src b ts) skipTrivia () (Facing src b ts) := by
  refine Reads.of_rest fun c hc => Reads.advance _ fun c₀ hc₀ => ?_
  subst hc₀
  cases ts with
  | nil =>
    have hwidth := triviaWidth_gap (trivia_of_blanks hc.laid.blanks) (s := []) (by simp)
    rw [List.append_nil] at hwidth
    rw [hwidth]
    exact hc.over_blanks
  | cons t ts =>
    obtain ⟨gap, s, hrest, hgap, hlaid⟩ := hc.laid.split
    have hwidth := triviaWidth_gap hgap.trivia (t.not_startsGap s)
    rw [hrest, hwidth]
    exact hc.over_gap hrest hlaid

variable {α : Type} {what : String} {recognise : List Char → Option (α × Nat)} {a : α}

theorem token_reads (h : ∀ s, Ended s → recognise (t.text ++ s) = some (a, t.text.length)) :
    Reads K (At src b (t :: ts)) (token what recognise) a (At src b ts) := by
  refine skipTrivia_reads.bind (Reads.of_rest fun c hc => ?_)
  obtain ⟨s, hrest, hlaid⟩ := hc.rest_cons t ts rfl
  rw [hrest, h s hlaid.ended]
  have hmove : Reads K (· = c) (advance t.text.length) () (At src b ts) :=
    Reads.advance _ fun c₀ hc₀ => hc₀ ▸ hc.over_text
  exact hmove.bind (Reads.pure a)

theorem token_refuses (hnil : recognise [] = none)
    (h : ∀ t ∈ ts.head?, ∀ s, Ended s → recognise (t.text ++ s) = none) :
    Refuses K (At src b ts) (token what recognise) := by
  refine Refuses.bind_right skipTrivia_reads (Refuses.of_rest fun c hc => ?_)
  have hnone : recognise c.rest = none := by
    cases ts with
    | nil => rw [hc.rest_nil rfl, hnil]
    | cons t ts =>
      obtain ⟨s, hrest, hlaid⟩ := hc.rest_cons t ts rfl
      rw [hrest, h t rfl s hlaid.ended]
  rw [hnone]
  exact Refuses.fail

theorem keyword_reads (k : Keyword) :
    Reads K (At src b (.keyword k :: ts)) (keyword k.text) () (At src b ts) := by
  refine token_reads fun s hs => ?_
  rw [if_pos ((Token.keyword_text k.form hs).mpr rfl)]
  rfl

theorem word_refuses {w : String} (hw : HasNameForm w.toList)
    (h : ∀ t ∈ ts.head?, t.word? ≠ some w) : Refuses K (At src b ts) (keyword w) := by
  refine token_refuses ?_ fun t ht s hs => if_neg fun hk =>
    h t ht ((Token.keyword_text hw hs).mp hk)
  obtain ⟨c, cs, hwc, -⟩ := hw.eq_cons
  simp [Lexeme.keyword, hwc]

theorem keyword_refuses (k : Keyword) (h : ts.head? ≠ some (.keyword k)) :
    Refuses K (At src b ts) (keyword k.text) := by
  refine word_refuses k.form fun t ht hw => h ?_
  cases t with
  | keyword l =>
    rw [Keyword.text_injective (Option.some.inj hw)] at ht
    exact ht
  | name n => exact absurd (Option.some.inj hw ▸ k.mem_reserved) n.free
  | _ => cases hw

theorem symbol_reads (x : Symbol) :
    Reads K (At src b (.symbol x :: ts)) (symbol x.text) () (At src b ts) := by
  refine token_reads fun s _ => ?_
  rw [if_pos ((Token.isPrefixOf_text x).mpr rfl)]
  rfl

theorem symbol_refuses (x : Symbol) (h : ts.head? ≠ some (.symbol x)) :
    Refuses K (At src b ts) (symbol x.text) := by
  refine token_refuses ?_ fun t ht s hs => if_neg fun hx => h ?_
  · obtain ⟨c, hx, -⟩ := x.toList_text
    simp [hx]
  · rw [← (Token.isPrefixOf_text x).mp hx]
    exact ht

theorem identifier_reads (n : Name) :
    Reads K (At src b (.name n :: ts)) identifier n.text (At src b ts) := by
  refine token_reads fun s hs => ?_
  rw [Token.identifier?_text hs]
  simp [Token.word?, Token.text]

theorem identifier_refuses (h : ∀ t ∈ ts.head?, t.word? = none) :
    Refuses K (At src b ts) identifier := by
  refine token_refuses rfl fun t ht s hs => ?_
  rw [Token.identifier?_text hs, h t ht]
  rfl

theorem literal_reads (l : Literal) :
    Reads K (At src b (.literal l :: ts)) literal (String.ofList l.value) (At src b ts) := by
  refine token_reads fun s _ => ?_
  rw [Token.literal?_text]
  rfl

theorem literal_refuses (h : ∀ t ∈ ts.head?, t.literal? = none) :
    Refuses K (At src b ts) literal := by
  refine token_refuses rfl fun t ht s _ => ?_
  rw [Token.literal?_text, h t ht]
  rfl

theorem double_refuses : Refuses K (At src b ts) double := by
  refine token_refuses rfl fun t _ s hs => ?_
  rw [Token.double?_text hs]
  rfl

theorem integer_reads (n : Numeral) :
    Reads K (At src b (.numeral n :: ts)) integer n.value (At src b ts) := by
  refine skipTrivia_reads.bind (Reads.of_rest fun c hc => ?_)
  obtain ⟨s, hrest, hlaid⟩ := hc.rest_cons _ ts rfl
  rw [hrest, Token.integerLexeme?_text hlaid.ended]
  have hmove : Reads K (· = c) (advance (Token.numeral n).text.length) () (At src b ts) :=
    Reads.advance _ fun c₀ hc₀ => hc₀ ▸ hc.over_text
  exact hmove.bind (Reads.pure n.value)

/-- `true` and `false` are no tokens. -/
theorem word?_ne_of_mem {w : String} (hw : w ∈ ["true", "false"]) (t : Token) :
    t.word? ≠ some w := by
  intro h
  cases t with
  | keyword k =>
    obtain rfl : k.text = w := Option.some.inj h
    revert hw
    cases k <;> decide
  | name n =>
    obtain rfl : n.text = w := Option.some.inj h
    have hsub : ∀ w ∈ ["true", "false"], w ∈ reserved := by decide
    exact n.free (hsub _ hw)
  | _ => cases h

theorem integer_refuses (h : ∀ t ∈ ts.head?, t.numeral? = none) :
    Refuses K (At src b ts) integer := by
  refine Refuses.bind_right skipTrivia_reads (Refuses.of_rest fun c hc => ?_)
  have hnone : integerLexeme? c.rest = none := by
    cases ts with
    | nil =>
      rw [hc.rest_nil rfl]
      rfl
    | cons t ts =>
      obtain ⟨s, hrest, hlaid⟩ := hc.rest_cons t ts rfl
      rw [hrest, Token.integerLexeme?_text hlaid.ended, h t rfl]
      rfl
  rw [hnone]
  have hword {w : String} (hform : HasNameForm w.toList) (hw : w ∈ ["true", "false"]) (n : Int64) :
      Declines K (· = c) (attempt (do keyword w; return n)) := by
    refine Declines.attempt (Refuses.bind fun c₀ hc₀ => ?_)
    subst hc₀
    exact word_refuses hform (fun t _ => word?_ne_of_mem hw t) _ hc.toAt
  exact Refuses.orElse (hword (by decide) (by simp) 1)
    (Refuses.orElse (hword (by decide) (by simp) 0) Refuses.fail)

end Single

end ThriftRpc.Idl.Parser
