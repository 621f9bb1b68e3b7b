import ThriftRpc.Proofs.Idl.Tail

/-!
# Reading types and constants

A type or a constant of some tokens is read with a depth of as many levels. Each alternative but one
refuses its first token.
-/

namespace ThriftRpc.Idl.Parser

open Grammar
open Text (Cursor)

variable {K : Set (Memos → Prop)} {src : List Char} {b : Nat} {ts us : List Token}

/-! ## Types -/

/-- A token that a type can begin with: a name or the word of a container. -/
def StartsType (x : Token) : Prop :=
  (∃ n, x = .name n) ∨ ∃ k ∈ [Keyword.list, .set, .map], x = .keyword k

theorem type_eq_cons {t : Ty} (h : TypeForm t us) : ∃ x us', us = x :: us' ∧ StartsType x := by
  cases h with
  | prim => exact ⟨_, _, rfl, .inl ⟨_, rfl⟩⟩
  | named => exact ⟨_, _, rfl, .inl ⟨_, rfl⟩⟩
  | list => exact ⟨_, _, rfl, .inr ⟨_, by simp, rfl⟩⟩
  | set => exact ⟨_, _, rfl, .inr ⟨_, by simp, rfl⟩⟩
  | map => exact ⟨_, _, rfl, .inr ⟨_, by simp, rfl⟩⟩

theorem StartsType.stage_eq {x : Token} (h : StartsType x) : stage x = 3 := by
  rcases h with ⟨n, rfl⟩ | ⟨k, hk, rfl⟩
  · rfl
  · revert hk
    cases k <;> simp [stage]

theorem StartsType.numeral?_eq {x : Token} (h : StartsType x) : x.numeral? = none := by
  rcases h with ⟨n, rfl⟩ | ⟨k, -, rfl⟩ <;> rfl

theorem StartsType.ne_keyword {x : Token} (h : StartsType x) {k : Keyword}
    (hk : k ∉ [Keyword.list, .set, .map]) : x ≠ .keyword k := by
  rintro rfl
  rcases h with ⟨n, hn⟩ | ⟨k', hk', hkk⟩
  · cases hn
  · cases hkk
    exact hk hk'

theorem type_starts {t : Ty} (h : TypeForm t us) : ∀ x ∈ (us ++ ts).head?, StartsType x := by
  obtain ⟨x, us', rfl, hx⟩ := type_eq_cons h
  intro y hy
  cases hy
  exact hx

theorem type_past {t : Ty} (h : TypeForm t us) : Past 3 (us ++ ts) :=
  fun x hx => (type_starts h x hx).stage_eq.ge

theorem type_head?_ne {t : Ty} (h : TypeForm t us) {k : Keyword}
    (hk : k ∉ [Keyword.list, .set, .map]) : (us ++ ts).head? ≠ some (.keyword k) :=
  fun hhead => (type_starts h _ hhead).ne_keyword hk rfl

theorem foreignType_reads {foreign : List Token} (h : ForeignForm foreign) (hts : Past 1 ts) :
    Reads K (At src b (foreign ++ ts)) foreignType () (At src b ts) := by
  cases h with
  | absent => exact (keyword_refuses .foreign (hts.head?_ne (by decide))).bind.optional.discard
  | present l => exact ((keyword_reads .foreign).bind (literal_reads l)).optional.discard

theorem simpleType_reads_prim {n : Name} {p : Primitive}
    (h : Primitive.ofKeyword? n.text = some p) :
    Reads K (At src b (.name n :: ts)) simpleType (.prim p) (At src b ts) := by
  refine (identifier_reads n).bind ?_
  rw [h]
  exact Reads.pure _

theorem simpleType_reads_named {n : Name} (h : Primitive.ofKeyword? n.text = none) :
    Reads K (At src b (.name n :: ts)) simpleType (.named n.text) (At src b ts) := by
  refine (identifier_reads n).bind ?_
  rw [h]
  exact Reads.pure _

theorem containerType_declines {inner : Parser Ty}
    (h : ∀ k ∈ [Keyword.list, .set, .map], ts.head? ≠ some (.keyword k)) :
    Declines K (At src b ts) (firstOf [mapType inner, setType inner, listType inner]) := by
  refine Declines.firstOf fun p hp => ?_
  simp only [List.mem_cons, List.not_mem_nil, or_false] at hp
  rcases hp with rfl | rfl | rfl
  · exact (keyword_refuses .map (h _ (by simp))).bind
  · exact (keyword_refuses .set (h _ (by simp))).bind
  · exact (keyword_refuses .list (h _ (by simp))).bind

section Containers

variable {inner : Parser Ty} {foreign : List Token} (hforeign : ForeignForm foreign)

include hforeign

theorem listType_reads {elem : Ty} {es : List Token} (hts : Past 1 ts)
    (helem : Reads K (At src b (es ++ .symbol .greater :: (foreign ++ ts))) inner elem
      (At src b (.symbol .greater :: (foreign ++ ts)))) :
    Reads K (At src b (.keyword .list :: .symbol .less :: (es ++ .symbol .greater ::
      (foreign ++ ts)))) (listType inner) (.list elem) (At src b ts) :=
  (keyword_reads .list).bind <| (symbol_reads .less).bind <| helem.bind <|
    (symbol_reads .greater).bind <| (foreignType_reads hforeign hts).bind <| Reads.pure _

theorem setType_reads {elem : Ty} {es : List Token}
    (helem : Reads K (At src b (es ++ .symbol .greater :: ts)) inner elem
      (At src b (.symbol .greater :: ts))) :
    Reads K (At src b (.keyword .set :: (foreign ++ .symbol .less ::
      (es ++ .symbol .greater :: ts)))) (setType inner) (.set elem) (At src b ts) := by
  have hless : Past 1 (.symbol .less :: (es ++ .symbol .greater :: ts)) := by simp [stage]
  exact (keyword_reads .set).bind <| (foreignType_reads hforeign hless).bind <|
    (symbol_reads .less).bind <| helem.bind <| (symbol_reads .greater).bind <| Reads.pure _

theorem mapType_reads {key value : Ty} {ks vs : List Token}
    (hkey : Reads K (At src b (ks ++ .symbol .comma :: (vs ++ .symbol .greater :: ts))) inner key
      (At src b (.symbol .comma :: (vs ++ .symbol .greater :: ts))))
    (hvalue : Reads K (At src b (vs ++ .symbol .greater :: ts)) inner value
      (At src b (.symbol .greater :: ts))) :
    Reads K (At src b (.keyword .map :: (foreign ++ .symbol .less :: (ks ++ .symbol .comma ::
      (vs ++ .symbol .greater :: ts))))) (mapType inner) (.map key value) (At src b ts) := by
  have hless : Past 1 (.symbol .less :: (ks ++ .symbol .comma ::
    (vs ++ .symbol .greater :: ts))) := by simp [stage]
  exact (keyword_reads .map).bind <| (foreignType_reads hforeign hless).bind <|
    (symbol_reads .less).bind <| hkey.bind <| (symbol_reads .comma).bind <| hvalue.bind <|
    (symbol_reads .greater).bind <| Reads.pure _

end Containers

theorem typeWithin_succ {P : Cursor → Prop} {t : Ty} {n : Nat} {ann : List Token}
    (hann : AnnotationsForm ann) (hts : Past 2 ts)
    (h : Reads K P (firstOf [mapType (typeWithin n), setType (typeWithin n),
      listType (typeWithin n)] <|> simpleType) t (At src b (ann ++ ts))) :
    Reads K P (typeWithin (n + 1)) t (At src b ts) :=
  h.bind ((annotations_reads hann hts).bind (Reads.pure t))

theorem typeWithin_reads {t : Ty} {n : Nat} (h : TypeForm t us) (hn : us.length ≤ n)
    (hts : Past 2 ts) : Reads K (At src b (us ++ ts)) (typeWithin n) t (At src b ts) := by
  induction n generalizing t us ts with
  | zero =>
    obtain ⟨x, us', rfl, -⟩ := type_eq_cons h
    simp at hn
  | succ n ih =>
    cases h with
    | prim hp hann =>
      exact typeWithin_succ hann hts <|
        Reads.orElse_right (containerType_declines (by simp)) (simpleType_reads_prim hp)
    | named hp hann =>
      exact typeWithin_succ hann hts <|
        Reads.orElse_right (containerType_declines (by simp)) (simpleType_reads_named hp)
    | @list elem es foreign ann helem hforeign hann =>
      simp only [List.length_cons, List.length_append] at hn
      have hpast : Past 1 (ann ++ ts) := (annotations_past hann).append (hts.mono (by omega))
      simp only [List.cons_append, List.append_assoc]
      exact typeWithin_succ hann hts <| Reads.orElse_left <|
        .firstOf_tail (keyword_refuses .map (by simp)).bind <|
        .firstOf_tail (keyword_refuses .set (by simp)).bind <| .firstOf_head <|
        listType_reads hforeign hpast (ih helem (by omega) (by simp [stage]))
    | @set elem es foreign ann hforeign helem hann =>
      simp only [List.length_cons, List.length_append] at hn
      simp only [List.cons_append, List.append_assoc]
      exact typeWithin_succ hann hts <| Reads.orElse_left <|
        .firstOf_tail (keyword_refuses .map (by simp)).bind <| .firstOf_head <|
        setType_reads hforeign (ih helem (by omega) (by simp [stage]))
    | @map key value ks vs foreign ann hforeign hkey hvalue hann =>
      simp only [List.length_cons, List.length_append] at hn
      simp only [List.cons_append, List.append_assoc]
      exact typeWithin_succ hann hts <| Reads.orElse_left <| .firstOf_head <|
        mapType_reads hforeign (ih hkey (by omega) (by simp [stage]))
          (ih hvalue (by omega) (by simp [stage]))

theorem type_reads {t : Ty} (h : TypeForm t us) (hts : Past 2 ts) :
    Reads K (At src b (us ++ ts)) type t (At src b ts) := by
  refine Reads.of_rest fun c hc => ?_
  have hlen := hc.length_le
  rw [List.length_append] at hlen
  exact (typeWithin_reads h (n := c.rest.length + 1) (by omega) hts).imp
    (fun c₀ hc₀ => hc₀ ▸ hc) (fun _ hc => hc)

/-- No type begins with a symbol. -/
theorem type_refuses (x : Symbol) : Refuses K (At src b (.symbol x :: ts)) type := by
  refine Refuses.of_rest fun c hc c₀ hc₀ => ?_
  subst hc₀
  have hnone : Refuses K (At src b (.symbol x :: ts)) (typeWithin (c₀.rest.length + 1)) :=
    Refuses.bind (Refuses.orElse (containerType_declines (by simp))
      (identifier_refuses (by simp [Token.word?])).bind)
  exact hnone _ hc

/-! ## Constants -/

/-- An item of a list constant. -/
def ItemForm (n : Nat) (v : Const) (us : List Token) : Prop :=
  ∃ vs sep, us = vs ++ sep ∧ vs.length ≤ n ∧ ConstForm v vs ∧ SeparatorForm sep

/-- An entry of a map constant. -/
def EntryForm (n : Nat) (e : Const × Const) (us : List Token) : Prop :=
  ∃ ks vs sep, us = ks ++ .symbol .colon :: (vs ++ sep) ∧ ks.length ≤ n ∧ vs.length ≤ n ∧
    ConstForm e.1 ks ∧ ConstForm e.2 vs ∧ SeparatorForm sep

theorem items_each {vs : List Const} {n : Nat} (h : ItemsForm vs us) (hn : us.length ≤ n) :
    Each (ItemForm n) vs us := by
  induction vs generalizing us with
  | nil =>
    cases h
    exact .nil
  | cons v vs ih =>
    cases h with
    | cons hv hsep hvs =>
      simp only [List.length_append] at hn
      exact .cons ⟨_, _, rfl, by omega, hv, hsep⟩ (ih hvs (by omega))

theorem entries_each {es : List (Const × Const)} {n : Nat} (h : EntriesForm es us)
    (hn : us.length ≤ n) : Each (EntryForm n) es us := by
  induction es generalizing us with
  | nil =>
    cases h
    exact .nil
  | cons e es ih =>
    cases h with
    | cons hk hv hsep hes =>
      simp only [List.length_append, List.length_cons] at hn
      exact .cons ⟨_, _, _, rfl, by omega, by omega, hk, hv, hsep⟩ (ih hes (by omega))

theorem const_ne_nil {v : Const} (h : ConstForm v us) : us ≠ [] := by
  cases h <;> simp

theorem const_past {v : Const} (h : ConstForm v us) : Past 3 us := by
  cases h <;> simp [stage]

theorem constantWithin_refuses (n : Nat) {x : Symbol} (hx : x ≠ .openBracket ∧ x ≠ .openBrace) :
    Refuses K (At src b (.symbol x :: ts)) (constantWithin n) := by
  cases n with
  | zero => exact Declines.failure.refuses
  | succ n =>
    refine (Declines.firstOf fun p hp => ?_).refuses
    simp only [List.mem_cons, List.not_mem_nil, or_false] at hp
    rcases hp with rfl | rfl | rfl | rfl | rfl | rfl
    · exact double_refuses.map
    · exact (integer_refuses (by simp [Token.numeral?])).map
    · exact (literal_refuses (by simp [Token.literal?])).map
    · exact (identifier_refuses (by simp [Token.word?])).map
    · exact (symbol_refuses .openBracket (by simpa using hx.1)).bind
    · exact (symbol_refuses .openBrace (by simpa using hx.2)).bind

section Constants

variable {inner : Parser Const} {n : Nat}
  (hinner : ∀ {v : Const} {us ts : List Token} {b : Nat}, ConstForm v us → us.length ≤ n →
    Reads K (At src b (us ++ ts)) inner v (At src b ts))

include hinner

theorem item_readsEach : ReadsEach K src (ItemForm n)
    (do let v ← inner; separator; return v) where
  reads := by
    rintro v _ ts b ⟨vs, sep, rfl, hn, hv, hsep⟩ hts
    rw [List.append_assoc]
    exact (hinner hv hn).bind ((separator_reads hsep hts).bind (Reads.pure v))
  ne_nil := by
    rintro v _ ⟨vs, sep, rfl, -, hv, -⟩
    simp [const_ne_nil hv]
  past := by
    rintro v _ ⟨vs, sep, rfl, -, hv, -⟩
    exact (const_past hv).append_left (const_ne_nil hv)

theorem entry_readsEach : ReadsEach K src (EntryForm n)
    (do let key ← inner; symbol ":"; let value ← inner; separator; return (key, value)) where
  reads := by
    rintro ⟨k, v⟩ _ ts b ⟨ks, vs, sep, rfl, hkn, hvn, hk, hv, hsep⟩ hts
    simp only [List.append_assoc, List.cons_append]
    exact (hinner hk hkn).bind <| (symbol_reads .colon).bind <| (hinner hv hvn).bind <|
      (separator_reads hsep hts).bind <| Reads.pure (k, v)
  ne_nil := by
    rintro e _ ⟨ks, vs, sep, rfl, -⟩
    simp
  past := by
    rintro e _ ⟨ks, vs, sep, rfl, -, -, hk, -⟩
    exact (const_past hk).append_left (const_ne_nil hk)

end Constants

/-- In front of a symbol only the containers are left. -/
theorem constantWithin_symbol {Q : Cursor → Prop} {v : Const} {x : Symbol} (n : Nat)
    (h : Reads K (At src b (.symbol x :: ts))
      (firstOf [listConstant (constantWithin n), mapConstant (constantWithin n)]) v Q) :
    Reads K (At src b (.symbol x :: ts)) (constantWithin (n + 1)) v Q :=
  .firstOf_tail double_refuses.map <|
    .firstOf_tail (integer_refuses (by simp [Token.numeral?])).map <|
    .firstOf_tail (literal_refuses (by simp [Token.literal?])).map <|
    .firstOf_tail (identifier_refuses (by simp [Token.word?])).map h

theorem constantWithin_reads {v : Const} {n : Nat} (h : ConstForm v us) (hn : us.length ≤ n) :
    Reads K (At src b (us ++ ts)) (constantWithin n) v (At src b ts) := by
  induction n generalizing v us ts b with
  | zero => exact absurd (List.length_eq_zero_iff.mp (Nat.le_zero.mp hn)) (const_ne_nil h)
  | succ n ih =>
    have hitem : ReadsEach K src (ItemForm n)
        (do let v ← constantWithin n; separator; return v) := item_readsEach fun h hn => ih h hn
    have hentry : ReadsEach K src (EntryForm n) (do
        let key ← constantWithin n; symbol ":"; let value ← constantWithin n; separator
        return (key, value)) := entry_readsEach fun h hn => ih h hn
    cases h with
    | int m => exact .firstOf_tail double_refuses.map <| .firstOf_head (integer_reads m).map
    | string l =>
      exact .firstOf_tail double_refuses.map <|
        .firstOf_tail (integer_refuses (by simp [Token.numeral?])).map <|
        .firstOf_head (literal_reads l).map
    | identifier m =>
      exact .firstOf_tail double_refuses.map <|
        .firstOf_tail (integer_refuses (by simp [Token.numeral?])).map <|
        .firstOf_tail (literal_refuses (by simp [Token.literal?])).map <|
        .firstOf_head (identifier_reads m).map
    | @list items is hitems =>
      simp only [List.length_cons, List.length_append, List.length_nil] at hn
      have hstop : Refuses K (At src 0 (.symbol .closeBracket :: ts))
          (do let v ← constantWithin n; separator; return v) :=
        (constantWithin_refuses n (by decide)).bind
      have hmany := hitem.many_reads (b := b) (by simp [stage]) hstop
        (items_each hitems (n := n) (by omega))
      simp only [List.cons_append, List.append_assoc, List.nil_append]
      exact constantWithin_symbol n <| .firstOf_head <| (symbol_reads .openBracket).bind <|
        hmany.bind <| (symbol_reads .closeBracket).bind <| Reads.pure _
    | @map entries es hentries =>
      simp only [List.length_cons, List.length_append, List.length_nil] at hn
      have hstop : Refuses K (At src 0 (.symbol .closeBrace :: ts)) (do
          let key ← constantWithin n; symbol ":"; let value ← constantWithin n; separator
          return (key, value)) := (constantWithin_refuses n (by decide)).bind
      have hmany := hentry.many_reads (b := b) (by simp [stage]) hstop
        (entries_each hentries (n := n) (by omega))
      simp only [List.cons_append, List.append_assoc, List.nil_append]
      exact constantWithin_symbol n <|
        .firstOf_tail (symbol_refuses .openBracket (by simp)).bind <| .firstOf_head <|
        (symbol_reads .openBrace).bind <| hmany.bind <| (symbol_reads .closeBrace).bind <|
        Reads.pure _

theorem constant_reads {v : Const} (h : ConstForm v us) :
    Reads K (At src b (us ++ ts)) constant v (At src b ts) := by
  refine Reads.of_rest fun c hc => ?_
  have hlen := hc.length_le
  rw [List.length_append] at hlen
  exact (constantWithin_reads h (n := c.rest.length + 1) (by omega)).imp
    (fun c₀ hc₀ => hc₀ ▸ hc) (fun _ hc => hc)

end ThriftRpc.Idl.Parser
