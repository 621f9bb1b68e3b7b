import ThriftRpc.Proofs.Idl.Nesting

/-!
# Parsers that only look ahead

From a place in the text a parser does one thing, whatever its state holds besides (`Fixed`). So an
item of a list is found there or it is not, and items are found one after another up to a place
where there is none (`Fixed.chain`).
-/

namespace ThriftRpc.Idl.Parser

open Text (Cursor)

variable {α β : Type} {text : List Char} {K : Set (Memos → Prop)} {m m' n n' : Nat}

/-- From the cursor `c` the parser answers `o`, or fails, and comes to `c'`. -/
def Runs (K : Set (Memos → Prop)) (p : Parser α) (c : Cursor) (o : Option α) (c' : Cursor) : Prop :=
  ∀ J ∈ K, ∀ s : State, J s.memos → s.cursor = c →
    ∃ s', p s = (o, s') ∧ s'.cursor = c' ∧ J s'.memos

/-- There is one thing that the parser does from the cursor. Where it answers, it takes `n`
characters or more. -/
def FixedAt (text : List Char) (K : Set (Memos → Prop)) (n : Nat) (p : Parser α) (c : Cursor) :
    Prop :=
  ∃ o c', Runs K p c o c' ∧ c'.Splits text ∧ c.offset ≤ c'.offset ∧
    (o.isSome = true → c.offset + n ≤ c'.offset)

/-- From the offset `m` on, the parser does one thing at each place in the text. -/
def Fixed (text : List Char) (K : Set (Memos → Prop)) (m n : Nat) (p : Parser α) : Prop :=
  ∀ c : Cursor, c.Splits text → m ≤ c.offset → FixedAt text K n p c

section Combining

variable {p q : Parser α} {k : α → Parser β} {c c' c'' : Cursor} {a : α} {o : Option β}

theorem Runs.takes (h : Runs K p c (some a) c') : Takes K p c a c' := h

theorem Runs.fails (h : Runs K p c none c') : Fails K p c := by
  intro J hJ s hs hsc
  obtain ⟨s', hrun, -, hs'⟩ := h J hJ s hs hsc
  exact ⟨s', hrun, hs'⟩

/-- From one state a parser does one thing. -/
theorem Runs.unique {J : Memos → Prop} {x : Memos} {o o' : Option α} (hJ : J ∈ K) (hx : J x)
    (h : Runs K p c o c') (h' : Runs K p c o' c'') : o = o' ∧ c' = c'' := by
  obtain ⟨s, hrun, hcur, -⟩ := h J hJ (stateAt c x) hx rfl
  obtain ⟨s', hrun', hcur', -⟩ := h' J hJ (stateAt c x) hx rfl
  cases hrun.symm.trans hrun'
  exact ⟨rfl, hcur.symm.trans hcur'⟩

theorem Runs.bind (hp : Runs K p c (some a) c') (hk : Runs K (k a) c' o c'') :
    Runs K (p >>= k) c o c'' := by
  intro J hJ s hs hsc
  obtain ⟨s₁, hrun, hcur, hs₁⟩ := hp J hJ s hs hsc
  obtain ⟨s₂, hrun₂, hcur₂, hs₂⟩ := hk J hJ s₁ hs₁ hcur
  exact ⟨s₂, (Packrat.bind_of_some hrun).trans hrun₂, hcur₂, hs₂⟩

theorem Runs.bind_none (hp : Runs K p c none c') : Runs K (p >>= k) c none c' := by
  intro J hJ s hs hsc
  obtain ⟨s₁, hrun, hcur, hs₁⟩ := hp J hJ s hs hsc
  exact ⟨s₁, Packrat.bind_of_none hrun, hcur, hs₁⟩

theorem Fixed.mono (h : Fixed text K m n p) (hm : m ≤ m') (hn : n' ≤ n) :
    Fixed text K m' n' p := by
  intro c hc hmc
  obtain ⟨o, c', hrun, hc', hle, hsome⟩ := h c hc (hm.trans hmc)
  exact ⟨o, c', hrun, hc', hle, fun ho => (Nat.add_le_add_left hn _).trans (hsome ho)⟩

theorem Fixed.pure (a : α) : Fixed text K m 0 (pure a) :=
  fun c hc _ => ⟨some a, c, fun _ _ s hs hsc => ⟨s, rfl, hsc, hs⟩, hc, Nat.le_refl _,
    fun _ => Nat.le_refl _⟩

theorem Fixed.failure : Fixed text K m n (failure : Parser α) :=
  fun c hc _ => ⟨none, c, fun _ _ s hs hsc => ⟨s, rfl, hsc, hs⟩, hc, Nat.le_refl _, nofun⟩

theorem Fixed.fail {what : String} : Fixed text K m n (fail what : Parser α) := by
  refine fun c hc _ => ⟨none, c, fun J _ s hs hsc => ⟨s.note what, rfl, ?_, ?_⟩, hc, Nat.le_refl _,
    nofun⟩
  · rw [State.cursor_note, hsc]
  · rwa [State.memos_note]

theorem Fixed.bind (hp : Fixed text K m n p) (hk : ∀ a, Fixed text K m n' (k a)) :
    Fixed text K m n' (p >>= k) := by
  intro c hc hm
  obtain ⟨o, c₁, hrun, hc₁, hle, -⟩ := hp c hc hm
  cases o with
  | none => exact ⟨none, c₁, hrun.bind_none, hc₁, hle, nofun⟩
  | some a =>
    obtain ⟨o, c₂, hrun₂, hc₂, hle₂, hsome₂⟩ := hk a c₁ hc₁ (hm.trans hle)
    exact ⟨o, c₂, hrun.bind hrun₂, hc₂, hle.trans hle₂,
      fun ho => (Nat.add_le_add_right hle n').trans (hsome₂ ho)⟩

/-- What follows a parser that takes characters is run further on. -/
theorem Fixed.bind_further (hp : Fixed text K m n p) (hk : ∀ a, Fixed text K (m + n) 0 (k a)) :
    Fixed text K m n (p >>= k) := by
  intro c hc hm
  obtain ⟨o, c₁, hrun, hc₁, hle, hsome⟩ := hp c hc hm
  cases o with
  | none => exact ⟨none, c₁, hrun.bind_none, hc₁, hle, nofun⟩
  | some a =>
    have hn := hsome rfl
    have hm₁ := (Nat.add_le_add_right hm n).trans hn
    obtain ⟨o, c₂, hrun₂, hc₂, hle₂, -⟩ := hk a c₁ hc₁ hm₁
    exact ⟨o, c₂, hrun.bind hrun₂, hc₂, hle.trans hle₂, fun _ => hn.trans hle₂⟩

theorem Fixed.map {g : α → β} (hp : Fixed text K m n p) : Fixed text K m n (g <$> p) := by
  rw [map_eq_pure_bind]
  exact hp.bind_further fun a => .pure (g a)

theorem Fixed.discard (hp : Fixed text K m n p) : Fixed text K m n (discard p) := hp.map

theorem Fixed.attempt (hp : Fixed text K m n p) : Fixed text K m n (attempt p) := by
  intro c hc hm
  obtain ⟨o, c₁, hrun, hc₁, hle, hsome⟩ := hp c hc hm
  cases o with
  | none =>
    refine ⟨none, c, fun J hJ s hs hsc => ?_, hc, Nat.le_refl _, nofun⟩
    obtain ⟨s', hrun', -, hs'⟩ := hrun J hJ s hs hsc
    exact ⟨_, attempt_of_none hrun', hsc, hs'⟩
  | some a =>
    refine ⟨some a, c₁, fun J hJ s hs hsc => ?_, hc₁, hle, hsome⟩
    obtain ⟨s', hrun', hcur, hs'⟩ := hrun J hJ s hs hsc
    exact ⟨s', attempt_of_some hrun', hcur, hs'⟩

theorem Fixed.orElse (hp : Fixed text K m n p) (hq : Fixed text K m n q) :
    Fixed text K m n (p <|> q) := by
  intro c hc hm
  obtain ⟨o, c₁, hrun, hc₁, hle, hsome⟩ := hp c hc hm
  cases o with
  | none =>
    obtain ⟨o, c₂, hrun₂, hc₂, hle₂, hsome₂⟩ := hq c₁ hc₁ (hm.trans hle)
    refine ⟨o, c₂, fun J hJ s hs hsc => ?_, hc₂, hle.trans hle₂,
      fun ho => (Nat.add_le_add_right hle n).trans (hsome₂ ho)⟩
    obtain ⟨s₁, hrun', hcur, hs₁⟩ := hrun J hJ s hs hsc
    obtain ⟨s₂, hrun₂', hcur₂, hs₂⟩ := hrun₂ J hJ s₁ hs₁ hcur
    exact ⟨s₂, (Packrat.orElse_of_none hrun').trans hrun₂', hcur₂, hs₂⟩
  | some a =>
    refine ⟨some a, c₁, fun J hJ s hs hsc => ?_, hc₁, hle, hsome⟩
    obtain ⟨s₁, hrun', hcur, hs₁⟩ := hrun J hJ s hs hsc
    exact ⟨s₁, Packrat.orElse_of_some hrun', hcur, hs₁⟩

theorem Fixed.optional (hp : Fixed text K m n p) : Fixed text K m 0 (optional? p) :=
  (hp.attempt.map.mono (Nat.le_refl m) (Nat.zero_le n)).orElse (.pure none)

theorem Fixed.succeeds (hp : Fixed text K m n p) : Fixed text K m 0 (succeeds p) :=
  hp.optional.bind fun found => .pure found.isSome

theorem Fixed.firstOf_nil : Fixed text K m n (firstOf [] : Parser α) := .failure

theorem Fixed.firstOf_cons {ps : List (Parser α)} (hp : Fixed text K m n p)
    (hps : Fixed text K m n (firstOf ps)) : Fixed text K m n (firstOf (p :: ps)) :=
  hp.attempt.orElse hps

theorem Fixed.ite {b : Bool} (hp : Fixed text K m n p) (hq : Fixed text K m n q) :
    Fixed text K m n (if b then p else q) := by
  cases b
  · exact hq
  · exact hp

theorem Fixed.of_rest {f : List Char → Parser α}
    (h : ∀ c : Cursor, c.Splits text → m ≤ c.offset → FixedAt text K n (f c.rest) c) :
    Fixed text K m n (rest >>= f) := by
  intro c hc hm
  obtain ⟨o, c', hrun, hc', hle, hsome⟩ := h c hc hm
  refine ⟨o, c', fun J hJ s hs hsc => ?_, hc', hle, hsome⟩
  obtain ⟨s', hrun', hs'⟩ := hrun J hJ s hs hsc
  have hrest : rest s = (some c.rest, s) := by rw [← hsc]; rfl
  exact ⟨s', (Packrat.bind_of_some hrest).trans hrun', hs'⟩

theorem FixedAt.advance (hc : c.Splits text) (hn : n ≤ c.rest.length) :
    FixedAt text K n (advance n) c :=
  ⟨some (), c.advance n, fun _ _ _ hs hsc => ⟨_, rfl, congrArg (·.advance n) hsc, hs⟩,
    hc.advance hn, Nat.le_add_right _ _, fun _ => Nat.le_refl _⟩

theorem FixedAt.weaken (h : FixedAt text K n p c) (hn : n' ≤ n) : FixedAt text K n' p c := by
  obtain ⟨o, c', hrun, hc', hle, hsome⟩ := h
  exact ⟨o, c', hrun, hc', hle, fun ho => (Nat.add_le_add_left hn _).trans (hsome ho)⟩

theorem FixedAt.map {g : α → β} (h : FixedAt text K n p c) :
    FixedAt text K n (do let a ← p; return g a) c := by
  obtain ⟨o, c', hrun, hc', hle, hsome⟩ := h
  cases o with
  | none => exact ⟨none, c', hrun.bind_none, hc', hle, nofun⟩
  | some a =>
    exact ⟨some (g a), c', hrun.bind fun _ _ s hs hsc => ⟨s, rfl, hsc, hs⟩, hc', hle,
      fun _ => hsome rfl⟩

end Combining

section Repeating

variable {item : Parser α}

theorem Fixed.repeatUpTo (h : Fixed text K m n item) (limit : Nat) :
    Fixed text K m 0 (repeatUpTo limit item) := by
  induction limit with
  | zero => exact .pure []
  | succ limit ih =>
    refine h.optional.bind fun found => ?_
    cases found with
    | none => exact .pure []
    | some a => exact ih.bind fun as => .pure (a :: as)

theorem Fixed.many (h : Fixed text K m n item) : Fixed text K m 0 (many item) :=
  .of_rest fun c hc hm => h.repeatUpTo _ c hc hm

/-- Items that take characters run out with the text. -/
theorem Fixed.chain (h : Fixed text K m 1 item) {c : Cursor} (hc : c.Splits text)
    (hm : m ≤ c.offset) : ∃ as c', Chain K item c as c' ∧ c'.Splits text ∧
      c.offset + as.length ≤ c'.offset := by
  induction hlen : c.rest.length using Nat.strongRecOn generalizing c with
  | ind length ih =>
    obtain ⟨o, c₁, hrun, hc₁, hle, hsome⟩ := h c hc hm
    cases o with
    | none => exact ⟨[], c, .nil hrun.fails, hc, Nat.le_refl _⟩
    | some a =>
      have hlt := hsome rfl
      have htotal := hc.length_eq
      have htotal₁ := hc₁.length_eq
      obtain ⟨as, c', hchain, hc', hmore⟩ := ih _ (by omega) hc₁ (hm.trans hle) rfl
      refine ⟨a :: as, c', .cons hrun hlt hchain, hc', ?_⟩
      rw [List.length_cons]
      omega

end Repeating

/-! ## Tokens -/

section Token

theorem skipTrivia_fixed : Fixed text K m 0 skipTrivia :=
  .of_rest fun c hc _ =>
    (FixedAt.advance hc (Lexeme.triviaWidth_le c.rest)).weaken (Nat.zero_le _)

variable {what : String} {recognise : List Char → Option (α × Nat)}

theorem token_fixed (h : Bounded recognise) : Fixed text K m 1 (token what recognise) := by
  refine skipTrivia_fixed.bind fun _ => .of_rest fun c hc hm => ?_
  cases hfound : recognise c.rest with
  | none => exact Fixed.fail c hc hm
  | some found =>
    obtain ⟨hpos, hle⟩ := h _ _ _ hfound
    exact (FixedAt.advance hc hle).map.weaken hpos

theorem keyword_fixed {word : String} (h : word ≠ "") : Fixed text K m 1 (keyword word) :=
  token_fixed (.keyword h)

theorem symbol_fixed {x : String} (h : x ≠ "") : Fixed text K m 1 (symbol x) :=
  token_fixed (.symbol h)

theorem identifier_fixed : Fixed text K m 1 identifier := token_fixed .identifier

theorem double_fixed : Fixed text K m 1 double := token_fixed .double

theorem literal_fixed : Fixed text K m 1 literal := token_fixed .literal

theorem truth_fixed : Fixed text K m 1 truth := by
  have hword {word : String} (h : word ≠ "") (n : Int64) :
      Fixed text K m 1 (attempt do keyword word; return n) :=
    ((keyword_fixed h).bind_further fun _ => .pure n).attempt
  exact (hword (by decide) 1).orElse ((hword (by decide) 0).orElse .fail)

theorem integer_fixed : Fixed text K m 1 integer := by
  refine skipTrivia_fixed.bind fun _ => .of_rest fun c hc hm => ?_
  cases hfound : integerLexeme? c.rest with
  | none => exact truth_fixed c hc hm
  | some found =>
    obtain ⟨hpos, hle⟩ := Bounded.integer _ _ _ hfound
    exact (FixedAt.advance hc hle).map.weaken hpos

theorem separator_fixed : Fixed text K m 0 separator :=
  (symbol_fixed (by decide)).succeeds.bind fun _ =>
    .ite (.pure ()) (symbol_fixed (by decide)).succeeds.discard

theorem annotation_fixed : Fixed text K m 1 annotation :=
  identifier_fixed.discard.bind_further fun _ => (symbol_fixed (by decide)).bind fun _ =>
    literal_fixed.discard.bind fun _ => separator_fixed

theorem annotations_fixed : Fixed text K m 0 annotations :=
  Fixed.discard <| Fixed.optional <| (symbol_fixed (by decide)).bind fun _ =>
    annotation_fixed.many.discard.bind fun _ => symbol_fixed (by decide)

end Token

/-! ## Types, constants and items -/

section Types

variable {inner : Parser Ty} (h : ∀ m, Fixed text K m 1 inner)

theorem foreignType_fixed : Fixed text K m 0 foreignType :=
  Fixed.discard <| Fixed.optional <| (keyword_fixed (by decide)).bind fun _ => literal_fixed

include h

theorem mapType_fixed : Fixed text K m 1 (mapType inner) :=
  (keyword_fixed (by decide)).bind_further fun _ => foreignType_fixed.bind fun _ =>
    (symbol_fixed (by decide)).bind fun _ => (h _).bind fun _ =>
    (symbol_fixed (by decide)).bind fun _ => (h _).bind fun _ =>
    (symbol_fixed (by decide)).bind fun _ => .pure _

theorem setType_fixed : Fixed text K m 1 (setType inner) :=
  (keyword_fixed (by decide)).bind_further fun _ => foreignType_fixed.bind fun _ =>
    (symbol_fixed (by decide)).bind fun _ => (h _).bind fun _ =>
    (symbol_fixed (by decide)).bind fun _ => .pure _

theorem listType_fixed : Fixed text K m 1 (listType inner) :=
  (keyword_fixed (by decide)).bind_further fun _ => (symbol_fixed (by decide)).bind fun _ =>
    (h _).bind fun _ => (symbol_fixed (by decide)).bind fun _ => foreignType_fixed.bind fun _ =>
    .pure _

omit h

theorem simpleType_fixed : Fixed text K m 1 simpleType := by
  refine identifier_fixed.bind_further fun name => ?_
  cases Primitive.ofKeyword? name with
  | some p => exact .pure _
  | none => exact .pure _

theorem typeWithin_fixed (depth : Nat) : ∀ m, Fixed text K m 1 (typeWithin depth) := by
  induction depth with
  | zero => exact fun _ => .failure
  | succ depth ih =>
    intro m
    have hcontainer := (mapType_fixed ih (m := m)).firstOf_cons <|
      (setType_fixed ih).firstOf_cons <| (listType_fixed ih).firstOf_cons .firstOf_nil
    exact (hcontainer.orElse simpleType_fixed).bind_further fun t =>
      annotations_fixed.bind fun _ => .pure t

theorem type_fixed : Fixed text K m 1 type :=
  .of_rest fun c hc hm => typeWithin_fixed _ m c hc hm

end Types

section Constants

variable {inner : Parser Const} (h : ∀ m, Fixed text K m 1 inner)

include h

theorem listConstant_fixed : Fixed text K m 1 (listConstant inner) :=
  (symbol_fixed (by decide)).bind_further fun _ =>
    ((h _).bind fun v => separator_fixed.bind fun _ => .pure v).many.bind fun _ =>
    (symbol_fixed (by decide)).bind fun _ => .pure _

theorem mapConstant_fixed : Fixed text K m 1 (mapConstant inner) :=
  (symbol_fixed (by decide)).bind_further fun _ =>
    ((h _).bind fun _ => (symbol_fixed (by decide)).bind fun _ => (h _).bind fun _ =>
      separator_fixed.bind fun _ => .pure _).many.bind fun _ =>
    (symbol_fixed (by decide)).bind fun _ => .pure _

omit h

theorem constantWithin_fixed (depth : Nat) : ∀ m, Fixed text K m 1 (constantWithin depth) := by
  induction depth with
  | zero => exact fun _ => .failure
  | succ depth ih =>
    exact fun m => double_fixed.map.firstOf_cons <| integer_fixed.map.firstOf_cons <|
      literal_fixed.map.firstOf_cons <| identifier_fixed.map.firstOf_cons <|
      (listConstant_fixed ih).firstOf_cons <| (mapConstant_fixed ih).firstOf_cons .firstOf_nil

theorem constant_fixed : Fixed text K m 1 constant :=
  .of_rest fun c hc hm => constantWithin_fixed _ m c hc hm

end Constants

section Items

theorem requiredness_fixed : Fixed text K m 0 requiredness :=
  (keyword_fixed (by decide)).succeeds.bind fun _ => .ite (.pure _) <|
    (keyword_fixed (by decide)).succeeds.bind fun _ => .ite (.pure _) (.pure _)

theorem field_fixed : Fixed text K m 1 field :=
  (integer_fixed.bind fun _ => (symbol_fixed (by decide)).bind fun _ =>
      .pure _).optional.bind fun _ =>
    requiredness_fixed.bind fun _ => type_fixed.bind_further fun _ =>
    identifier_fixed.bind fun _ =>
    ((symbol_fixed (by decide)).bind fun _ => constant_fixed).optional.bind fun _ =>
    annotations_fixed.bind fun _ => separator_fixed.bind fun _ => .pure _

theorem enumMember_fixed : Fixed text K m 1 enumMember :=
  identifier_fixed.bind_further fun _ =>
    ((symbol_fixed (by decide)).bind fun _ => integer_fixed).optional.bind fun _ =>
    annotations_fixed.bind fun _ => separator_fixed.bind fun _ => .pure _

theorem textItem_fixed : Fixed text K m 1 textItem :=
  literal_fixed.bind_further fun _ => separator_fixed.bind fun _ => .pure _

end Items

section Definitions

theorem comment_fixed : Fixed text K m 0 comment := by
  refine .of_rest fun c hc hm => ?_
  cases hfound : Lexeme.comment? c.rest with
  | none => exact Fixed.failure c hc hm
  | some found =>
    have hle := (Lexeme.comment?_begins hfound).length_le
    exact (FixedAt.advance hc hle).map.weaken (Nat.zero_le _)

theorem inclusion_fixed : Fixed text K m 0 inclusion :=
  (keyword_fixed (by decide)).bind fun _ => literal_fixed.bind fun _ => .pure _

theorem scope_fixed : Fixed text K m 0 scope :=
  (keyword_fixed (by decide)).bind fun _ => (symbol_fixed (by decide)).succeeds.bind fun _ =>
    .ite ((Fixed.pure none).bind fun _ => identifier_fixed.bind fun _ => .pure _)
      (identifier_fixed.map.bind fun _ => identifier_fixed.bind fun _ => .pure _)

theorem constantDefinition_fixed : Fixed text K m 0 constantDefinition :=
  (keyword_fixed (by decide)).bind fun _ => type_fixed.bind fun _ => identifier_fixed.bind fun _ =>
    (symbol_fixed (by decide)).bind fun _ => constant_fixed.bind fun _ =>
    separator_fixed.bind fun _ => .pure _

theorem typedef_fixed : Fixed text K m 0 typedef :=
  (keyword_fixed (by decide)).bind fun _ => type_fixed.bind fun _ => identifier_fixed.bind fun _ =>
    annotations_fixed.bind fun _ => separator_fixed.bind fun _ => .pure _

end Definitions

end ThriftRpc.Idl.Parser
