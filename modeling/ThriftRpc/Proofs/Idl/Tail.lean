import ThriftRpc.Proofs.Idl.Growing
import ThriftRpc.Proofs.Idl.Token

/-!
# Reading what may be missing

The optional parts behind an item come in a fixed order. Where the next token is of a later stage,
what would come earlier is missing, and the parser notices without taking anything. Items are read
one after another up to a token that begins none.
-/

namespace ThriftRpc.Idl.Parser

open Grammar
open Packrat (Slot)
open Text (Cursor)

/-- The stage of a token behind an item: a value, thrown errors or a foreign type come before
annotations, annotations before a separator, and that before anything else. -/
def stage : Token → Nat
  | .keyword .throws | .keyword .foreign | .symbol .equals => 0
  | .symbol .openParen => 1
  | .symbol .comma | .symbol .semicolon => 2
  | _ => 3

/-- The next token is of the stage `n` at least. -/
def Past (n : Nat) (ts : List Token) : Prop := ∀ t ∈ ts.head?, n ≤ stage t

section Past

variable {n : Nat} {t : Token} {us ts : List Token}

@[simp] theorem past_nil : Past n [] := by simp [Past]

@[simp] theorem past_cons : Past n (t :: ts) ↔ n ≤ stage t := by simp [Past]

theorem Past.mono {m : Nat} (h : Past n ts) (hm : m ≤ n) : Past m ts :=
  fun t ht => hm.trans (h t ht)

theorem Past.append (hus : Past n us) (hts : Past n ts) : Past n (us ++ ts) := by
  cases us with
  | nil => exact hts
  | cons u us =>
    rw [past_cons] at hus
    rwa [List.cons_append, past_cons]

theorem Past.append_left (hus : Past n us) (hne : us ≠ []) : Past n (us ++ ts) := by
  cases us with
  | nil => exact absurd rfl hne
  | cons u us => exact hus

theorem Past.head?_ne (h : Past n ts) (ht : stage t < n) : ts.head? ≠ some t := by
  intro hhead
  have := h t hhead
  omega

end Past


section Reading

variable {α : Type} {K : Set (Memos → Prop)} {src : List Char} {b : Nat} {ts : List Token}

/-- The parser reads every item of a form. The item takes a token, and does not begin with one that
may continue the item before it. -/
structure ReadsEach (K : Set (Memos → Prop)) (src : List Char) (form : α → List Token → Prop)
    (item : Parser α) : Prop where
  reads : ∀ {a : α} {us ts : List Token} {b : Nat}, form a us → Past 3 ts →
    Reads K (At src b (us ++ ts)) item a (At src b ts)
  ne_nil : ∀ {a : α} {us : List Token}, form a us → us ≠ []
  past : ∀ {a : α} {us : List Token}, form a us → Past 3 us

section Items

variable {form : α → List Token → Prop} {item : Parser α} {as : List α} {us : List Token}

theorem ReadsEach.each_past (h : ReadsEach K src form item) (heach : Each form as us) :
    Past 3 us := by
  induction heach with
  | nil => exact past_nil
  | cons ha _ ih => exact (h.past ha).append ih

theorem ReadsEach.length_le (h : ReadsEach K src form item) (heach : Each form as us) :
    as.length ≤ us.length := by
  induction heach with
  | nil => exact Nat.le_refl _
  | cons ha _ ih =>
    have hpos := List.length_pos_iff.mpr (h.ne_nil ha)
    rw [List.length_append, List.length_cons]
    omega

theorem ReadsEach.length_le_rest (h : ReadsEach K src form item) (heach : Each form as us)
    {c : Cursor} (hc : At src b (us ++ ts) c) : as.length ≤ c.rest.length := by
  have hitems := h.length_le heach
  have htokens := hc.length_le
  rw [List.length_append] at htokens
  omega

variable (h : ReadsEach K src form item) (hts : Past 3 ts) (hstop : Refuses K (At src 0 ts) item)

include h hts hstop

theorem ReadsEach.chain (heach : Each form as us) {c : Cursor} (hc : At src b (us ++ ts) c) :
    ∃ c', At src b ts c' ∧ Chain K item c as c' := by
  induction heach generalizing c with
  | nil => exact ⟨c, hc, .nil (hstop c (hc.mono (Nat.zero_le b)))⟩
  | @cons a as us vs ha hmore ih =>
    rw [List.append_assoc] at hc
    -- At the bound that is reached here, the item has to take a character.
    have hexact : At src (c.offset + (us ++ (vs ++ ts)).length) (us ++ (vs ++ ts)) c :=
      ⟨hc.place, Nat.le_refl _, hc.laid⟩
    obtain ⟨c₁, hc₁, htakes⟩ := h.reads ha ((h.each_past hmore).append hts) c hexact
    have hpos := List.length_pos_iff.mpr (h.ne_nil ha)
    have hbound := hc₁.bound_le
    rw [List.length_append] at hbound
    obtain ⟨c', hc', hchain⟩ := ih (hc₁.mono hc.bound_le)
    exact ⟨c', hc', .cons htakes (by omega) hchain⟩

theorem ReadsEach.many_reads (heach : Each form as us) :
    Reads K (At src b (us ++ ts)) (many item) as (At src b ts) := by
  intro c hc
  obtain ⟨c', hc', hchain⟩ := h.chain hts hstop heach hc
  obtain ⟨_, rfl, htakes⟩ := hchain.many (h.length_le_rest heach hc) c rfl
  exact ⟨_, hc', htakes⟩

end Items

/-! ## Separators and annotations -/

theorem separator_past {sep : List Token} (h : SeparatorForm sep) : Past 2 sep := by
  cases h <;> simp [stage]

theorem annotations_past {ann : List Token} (h : AnnotationsForm ann) : Past 1 ann := by
  cases h <;> simp [stage]

/-- What stands in front of a separator, and of annotations before it. -/
theorem tail_past {ann sep : List Token} (hann : AnnotationsForm ann) (hsep : SeparatorForm sep)
    (hts : Past 3 ts) : Past 2 (sep ++ ts) ∧ Past 1 (ann ++ (sep ++ ts)) := by
  have hsep' : Past 2 (sep ++ ts) := (separator_past hsep).append (hts.mono (by omega))
  exact ⟨hsep', (annotations_past hann).append (hsep'.mono (by omega))⟩

theorem separator_reads {sep : List Token} (h : SeparatorForm sep) (hts : Past 3 ts) :
    Reads K (At src b (sep ++ ts)) separator () (At src b ts) := by
  have hcomma : ts.head? ≠ some (.symbol .comma) := hts.head?_ne (by decide)
  have hsemicolon : ts.head? ≠ some (.symbol .semicolon) := hts.head?_ne (by decide)
  cases h with
  | absent =>
    exact (symbol_refuses .comma hcomma).succeeds.bind
      (symbol_refuses .semicolon hsemicolon).succeeds.discard
  | comma => exact (symbol_reads .comma).succeeds.bind (Reads.pure ())
  | semicolon =>
    exact (symbol_refuses .comma (by simp)).succeeds.bind
      (symbol_reads .semicolon).succeeds.discard

theorem annotation_readsEach : ReadsEach K src AnnotationForm annotation where
  reads := by
    rintro _ _ ts b ⟨key, value, hsep⟩ hts
    exact (identifier_reads key).discard.bind <| (symbol_reads .equals).bind <|
      (literal_reads value).discard.bind <| separator_reads hsep hts
  ne_nil := by
    rintro _ _ ⟨⟩
    exact List.cons_ne_nil _ _
  past := by
    rintro _ _ ⟨⟩
    simp [stage]

theorem annotations_reads {ann : List Token} (h : AnnotationsForm ann) (hts : Past 2 ts) :
    Reads K (At src b (ann ++ ts)) annotations () (At src b ts) := by
  cases h with
  | absent =>
    have hnone : Refuses K (At src b ts) (symbol "(") :=
      symbol_refuses .openParen (hts.head?_ne (by decide))
    exact hnone.bind.optional.discard
  | @present units us hunits =>
    have hstop : Refuses K (At src 0 (.symbol .closeParen :: ts)) annotation :=
      (identifier_refuses (by simp [Token.word?])).map.bind
    have hmany := annotation_readsEach.many_reads (b := b) (by simp [stage]) hstop hunits
    simp only [List.cons_append, List.append_assoc, List.nil_append]
    exact ((symbol_reads .openParen).bind (hmany.discard.bind
      (symbol_reads .closeParen))).optional.discard

/-- The first item is the seed of a list that begins with one. -/
theorem Chain.grown {item : Parser α} {a : α} {as : List α} {c c' : Cursor}
    (h : Chain K item c (a :: as) c') : Grown K item (do return [← item]) c (a :: as) c' := by
  cases h with
  | @cons _ c₁ _ _ _ htakes _ hmore =>
    have hitem : Reads K (· = c) item a (· = c₁) := fun _ hc => ⟨c₁, rfl, hc ▸ htakes⟩
    obtain ⟨_, rfl, hbase⟩ := (hitem.bind (f := fun a => pure [a]) (Reads.pure [a])) c rfl
    exact ⟨[a], as, _, rfl, hbase, hmore⟩

/-- Where an empty list is an answer, it is the seed. -/
theorem Chain.grown_nil {item : Parser α} {as : List α} {c c' : Cursor}
    (h : Chain K item c as c') : Grown K item (return []) c as c' := by
  obtain ⟨_, rfl, hbase⟩ := (Reads.pure (K := K) (P := (· = c)) ([] : List α)) c rfl
  exact ⟨[], as, _, rfl, hbase, h⟩

section Lists

variable {form : α → List Token → Prop} {item : Parser α} {as : List α} {us : List Token}
  {L : Set (Memos → Prop)} {slot : Slot State (List α)} {part : Part slot}
  (h : ReadsEach L src form item) (hts : Past 3 ts) (hstop : Refuses L (At src 0 ts) item)
  (heach : Each form as us)

include h hts hstop heach

theorem ReadsEach.list_reads {base : Parser (List α)} (hK : Carries L item base src part K)
    (hgrown : ∀ {c c'}, Chain L item c as c' → Grown L item base c as c') :
    Reads K (At src b (us ++ ts)) (Packrat.apply slot (oneMore slot item base)) as
      (At src b ts) := by
  intro c hc
  obtain ⟨c', hc', hchain⟩ := h.chain hts hstop heach hc
  exact ⟨c', hc', hK.takes (hgrown hchain) (h.length_le_rest heach hc) hc.place⟩

/-- A list that may be missing; an empty one is. -/
theorem ReadsEach.itemList_reads (hK : Carries L item (do return [← item]) src part K) :
    ∃ found : Option (List α), found.getD [] = as ∧
      Reads K (At src b (us ++ ts)) (optional? (itemList slot item)) found (At src b ts) := by
  cases heach with
  | nil =>
    have hbase : Refuses L (At src 0 ts) (do return [← item]) := hstop.bind
    have hnone : Refuses K (At src b ts) (itemList slot item) := fun c hc =>
      hK.fails (hbase c (hc.mono (Nat.zero_le b))) hc.place
    exact ⟨none, rfl, hnone.optional⟩
  | @cons a as us vs ha hmore =>
    have hsome := h.list_reads (b := b) hts hstop (.cons ha hmore) hK fun hchain => hchain.grown
    exact ⟨some (a :: as), rfl, hsome.optional⟩

end Lists

end Reading

end ThriftRpc.Idl.Parser
