import ThriftRpc.Proofs.Idl.Growing
import ThriftRpc.Proofs.Idl.Reached
import ThriftRpc.Proofs.Idl.Width

/-!
# Parsers lead onward

Every parser of the grammar makes of a state one further on in the same parse (`Steady`). As types
and constants nest, this is stated of two parsers at once, which do the same from a place on
(`Agree`): so it also tells that a recursion depends on itself only further on in the text.
-/

namespace ThriftRpc.Idl.Parser

open Packrat
open Text (Cursor)

variable {α β : Type} {text : List Char} {m n : Nat}

/-- From the states with a cursor at `m` or behind, two parsers do the same, and lead onward. -/
def Agree (text : List Char) (m : Nat) (p q : Parser α) : Prop :=
  ∀ s, Reached text s → m ≤ s.cursor.offset → p s = q s ∧ Onward text s (q s).2

/-- The parser leads onward. -/
abbrev Steady (text : List Char) (p : Parser α) : Prop := Agree text 0 p p

/-- The parser takes at least a character where it answers. -/
structure Bites (text : List Char) (p : Parser α) : Prop where
  steady : Steady text p
  further : ∀ s, Reached text s → ∀ a s', p s = (some a, s') → s.cursor.offset < s'.cursor.offset

/-- Where the parser fails, it has noted so there or further on. -/
def Notes (text : List Char) (p : Parser α) : Prop :=
  ∀ s, Reached text s → ∀ s', p s = (none, s') → s.cursor.offset ≤ s'.furthest.offset

section Combining

variable {p q p' q' : Parser α} {k k' : α → Parser β}

theorem Agree.mono (h : Agree text m p q) (hm : m ≤ n) : Agree text n p q :=
  fun s hs hn => h s hs (hm.trans hn)

theorem Steady.at (h : Steady text p) (m : Nat) : Agree text m p p := h.mono (Nat.zero_le m)

theorem Steady.onward (h : Steady text p) {s s' : State} (hs : Reached text s) {a : Option α}
    (hrun : p s = (a, s')) : Onward text s s' := by
  have honward := (h s hs (Nat.zero_le _)).2
  rwa [hrun] at honward

theorem Agree.pure (a : α) : Agree text m (pure a) (pure a) :=
  fun _ hs _ => ⟨rfl, .refl hs⟩

theorem Agree.failure : Agree text m (failure : Parser α) failure :=
  fun _ hs _ => ⟨rfl, .refl hs⟩

theorem Agree.fail {what : String} (h : what ≠ "") :
    Agree text m (fail what : Parser α) (fail what) :=
  fun _ hs _ => ⟨rfl, .note hs h⟩

/-- What follows only has to agree where the first parser ends. -/
theorem Agree.bind_of (hp : Agree text m p q)
    (hk : ∀ a s s', Reached text s → m ≤ s.cursor.offset → q s = (some a, s') → Onward text s s' →
      k a s' = k' a s' ∧ Onward text s' (k' a s').2) :
    Agree text m (p >>= k) (q >>= k') := by
  intro s hs hm
  obtain ⟨heq, honward⟩ := hp s hs hm
  rcases hrun : q s with ⟨_ | a, s'⟩
  · rw [hrun] at heq honward
    rw [bind_of_none hrun, bind_of_none heq]
    exact ⟨rfl, honward⟩
  · rw [hrun] at heq honward
    rw [bind_of_some hrun, bind_of_some heq]
    obtain ⟨heq', honward'⟩ := hk a s s' hs hm hrun honward
    exact ⟨heq', honward.trans honward'⟩

theorem Agree.bind (hp : Agree text m p q) (hk : ∀ a, Agree text m (k a) (k' a)) :
    Agree text m (p >>= k) (q >>= k') :=
  hp.bind_of fun a _ s' _ hm _ honward => hk a s' honward.reached (hm.trans honward.cursor)

theorem Agree.map {g : α → β} (hp : Agree text m p q) : Agree text m (g <$> p) (g <$> q) := by
  rw [map_eq_pure_bind, map_eq_pure_bind]
  exact hp.bind fun a => .pure (g a)

theorem Agree.discard (hp : Agree text m p q) : Agree text m (discard p) (discard q) := hp.map

theorem Agree.attempt (hp : Agree text m p q) : Agree text m (attempt p) (attempt q) := by
  intro s hs hm
  obtain ⟨heq, honward⟩ := hp s hs hm
  rcases hrun : q s with ⟨_ | a, s'⟩
  · rw [hrun] at heq honward
    rw [attempt_of_none hrun, attempt_of_none heq]
    exact ⟨rfl, .back hs honward.toLater⟩
  · rw [hrun] at heq honward
    rw [attempt_of_some hrun, attempt_of_some heq]
    exact ⟨rfl, honward⟩

theorem Agree.orElse (hp : Agree text m p q) (hp' : Agree text m p' q') :
    Agree text m (p <|> p') (q <|> q') := by
  intro s hs hm
  obtain ⟨heq, honward⟩ := hp s hs hm
  rcases hrun : q s with ⟨_ | a, s'⟩
  · rw [hrun] at heq honward
    rw [orElse_of_none hrun, orElse_of_none heq]
    obtain ⟨heq', honward'⟩ := hp' s' honward.reached (hm.trans honward.cursor)
    exact ⟨heq', honward.trans honward'⟩
  · rw [hrun] at heq honward
    rw [orElse_of_some hrun, orElse_of_some heq]
    exact ⟨rfl, honward⟩

theorem Agree.optional (hp : Agree text m p q) : Agree text m (optional? p) (optional? q) :=
  hp.attempt.map.orElse (.pure none)

theorem Agree.succeeds (hp : Agree text m p q) : Agree text m (succeeds p) (succeeds q) :=
  hp.optional.bind fun _ => .pure _

theorem Agree.firstOf_nil : Agree text m (firstOf [] : Parser α) (firstOf []) := .failure

theorem Agree.firstOf_cons {ps qs : List (Parser α)} (hp : Agree text m p q)
    (hps : Agree text m (firstOf ps) (firstOf qs)) :
    Agree text m (firstOf (p :: ps)) (firstOf (q :: qs)) := hp.attempt.orElse hps

theorem Agree.ite {b : Bool} (hp : Agree text m p q) (hp' : Agree text m p' q') :
    Agree text m (if b then p else p') (if b then q else q') := by
  cases b
  · exact hp'
  · exact hp

theorem Agree.of_rest {f g : List Char → Parser α}
    (h : ∀ s, Reached text s → m ≤ s.cursor.offset → f s.cursor.rest s = g s.cursor.rest s ∧
      Onward text s (g s.cursor.rest s).2) : Agree text m (rest >>= f) (rest >>= g) := h

/-! ## Taking characters -/

/-- What follows a parser that takes a character is run further on. -/
theorem Bites.bind_agree (hb : Bites text p) (hk : ∀ a, Agree text (m + 1) (k a) (k' a)) :
    Agree text m (p >>= k) (p >>= k') :=
  (hb.steady.at m).bind_of fun a s s' hs hm hrun honward =>
    hk a s' honward.reached (Nat.lt_of_le_of_lt hm (hb.further s hs a s' hrun))

theorem Bites.failure : Bites text (failure : Parser α) := ⟨.failure, fun _ _ _ _ h => by cases h⟩

theorem Bites.bind (hb : Bites text p) (hk : ∀ a, Steady text (k a)) : Bites text (p >>= k) := by
  refine ⟨hb.steady.bind hk, fun s hs b s'' hrun => ?_⟩
  obtain ⟨a, s', hp, hrest⟩ := bind_eq_some hrun
  have hreached := (hb.steady.onward hs hp).reached
  exact (hb.further s hs a s' hp).trans_le ((hk a).onward hreached hrest).cursor

theorem Bites.bind_right (hp : Steady text p) (hb : ∀ a, Bites text (k a)) :
    Bites text (p >>= k) := by
  refine ⟨hp.bind fun a => (hb a).steady, fun s hs b s'' hrun => ?_⟩
  obtain ⟨a, s', hrun, hrest⟩ := bind_eq_some hrun
  have honward := hp.onward hs hrun
  exact honward.cursor.trans_lt ((hb a).further s' honward.reached b s'' hrest)

theorem Bites.map {g : α → β} (hb : Bites text p) : Bites text (g <$> p) := by
  rw [map_eq_pure_bind]
  exact hb.bind fun a => .pure (g a)

theorem Bites.attempt (hb : Bites text p) : Bites text (attempt p) :=
  ⟨hb.steady.attempt, fun s hs a s' hrun => hb.further s hs a s' (attempt_eq_some hrun)⟩

theorem Bites.orElse (hb : Bites text p) (hb' : Bites text p') : Bites text (p <|> p') := by
  refine ⟨hb.steady.orElse hb'.steady, fun s hs a s' hrun => ?_⟩
  obtain hp | ⟨s₁, hp, hp'⟩ := orElse_eq_some hrun
  · exact hb.further s hs a s' hp
  · have honward := hb.steady.onward hs hp
    exact honward.cursor.trans_lt (hb'.further s₁ honward.reached a s' hp')

theorem Bites.firstOf_nil : Bites text (firstOf [] : Parser α) := .failure

theorem Bites.firstOf_cons {ps : List (Parser α)} (hb : Bites text p)
    (hbs : Bites text (firstOf ps)) : Bites text (firstOf (p :: ps)) := hb.attempt.orElse hbs

/-- A parser that looks at what lies ahead may be followed state by state. -/
theorem Bites.of_rest {f : List Char → Parser α} (h : ∀ s, Reached text s →
    Onward text s (f s.cursor.rest s).2 ∧
      ∀ a s', f s.cursor.rest s = (some a, s') → s.cursor.offset < s'.cursor.offset) :
    Bites text (rest >>= f) :=
  ⟨.of_rest fun s hs _ => ⟨rfl, (h s hs).1⟩, fun s hs => (h s hs).2⟩

/-- Where something was found, characters were taken. -/
theorem Bites.optional (hb : Bites text p) {s s' : State} (hs : Reached text s) {a : α}
    (hrun : optional? p s = (some (some a), s')) : s.cursor.offset < s'.cursor.offset := by
  obtain hsome | ⟨s₁, -, hnone⟩ := orElse_eq_some hrun
  · rw [map_eq_pure_bind] at hsome
    obtain ⟨b, s₁, hattempt, hpure⟩ := bind_eq_some hsome
    cases hpure
    exact hb.attempt.further s hs _ _ hattempt
  · cases hnone

/-- Either of two alternatives takes a character, the first one in the condition. -/
theorem Bites.if_succeeds (hb : Bites text p) {q₁ q₂ : Parser β} (h₁ : Steady text q₁)
    (h₂ : Bites text q₂) : Bites text (Parser.succeeds p >>= fun b => if b then q₁ else q₂) := by
  refine ⟨hb.steady.succeeds.bind fun _ => .ite h₁ h₂.steady, fun s hs b s'' hrun => ?_⟩
  obtain ⟨succeeded, s', hsucceeds, hrest⟩ := bind_eq_some hrun
  obtain ⟨found, s₁, hfound, hpure⟩ := bind_eq_some hsucceeds
  cases hpure
  have hsteady : Steady text (optional? p) := hb.steady.optional
  have honward := hsteady.onward hs hfound
  cases found with
  | none => exact honward.cursor.trans_lt (h₂.further s' honward.reached b s'' hrest)
  | some a => exact (hb.optional hs hfound).trans_le (h₁.onward honward.reached hrest).cursor

theorem Notes.fail {what : String} : Notes text (fail what : Parser α) := by
  intro s _ s' hrun
  cases hrun
  exact s.cursor_le_note what

theorem Notes.pure (a : α) : Notes text (pure a) := fun _ _ _ h => by cases h

theorem Notes.bind (hn : Notes text p) (hp : Steady text p) (hk : ∀ a, Notes text (k a)) :
    Notes text (p >>= k) := by
  intro s hs s'' hrun
  obtain hp' | ⟨a, s', hp', hrest⟩ := bind_eq_none hrun
  · exact hn s hs s'' hp'
  · have honward := hp.onward hs hp'
    exact honward.cursor.trans (hk a s' honward.reached s'' hrest)

theorem Notes.attempt (hn : Notes text p) : Notes text (attempt p) := by
  intro s hs s' hrun
  obtain ⟨s₁, hp, rfl⟩ := attempt_eq_none hrun
  exact hn s hs s₁ hp

/-- A note of the first alternative is kept by the others. -/
theorem Notes.orElse_left (hn : Notes text p) (hp : Steady text p) (hp' : Steady text p') :
    Notes text (p <|> p') := by
  intro s hs s' hrun
  obtain ⟨s₁, hfirst, hsecond⟩ := orElse_eq_none hrun
  have hreached := (hp.onward hs hfirst).reached
  exact (hn s hs s₁ hfirst).trans (hp'.onward hreached hsecond).furthest

theorem Notes.orElse_right (hp : Steady text p) (hn : Notes text p') : Notes text (p <|> p') := by
  intro s hs s' hrun
  obtain ⟨s₁, hfirst, hsecond⟩ := orElse_eq_none hrun
  have honward := hp.onward hs hfirst
  exact honward.cursor.trans (hn s₁ honward.reached s' hsecond)

theorem Notes.of_rest {f : List Char → Parser α} (h : ∀ s, Reached text s → ∀ s',
    f s.cursor.rest s = (none, s') → s.cursor.offset ≤ s'.furthest.offset) :
    Notes text (rest >>= f) := h

end Combining

/-- One round of a repetition. -/
def manyRound (p : Parser α) (loop : Parser (List α)) : Parser (List α) := do
  match ← optional? p with
  | some a => return a :: (← loop)
  | none => return []

section Repeating

variable {p q : Parser α} {f g : Parser (List α)}

theorem manyRound_agree (hp : Agree text m p q) (hloop : Agree text m f g) :
    Agree text m (manyRound p f) (manyRound q g) := by
  refine hp.optional.bind fun found => ?_
  cases found with
  | none => exact .pure []
  | some a => exact hloop.bind fun as => .pure (a :: as)

theorem Agree.many (hp : Agree text m p q) : Agree text m (many p) (many q) := by
  have hrepeat : ∀ n, Agree text m (repeatUpTo n p) (repeatUpTo n q) := by
    intro n
    induction n with
    | zero => exact .pure []
    | succ n ih => exact manyRound_agree hp ih
  exact .of_rest fun s hs hm => hrepeat _ s hs hm

end Repeating

/-! ## Tokens -/

section Token

theorem skipTrivia_steady : Steady text skipTrivia :=
  .of_rest fun s hs _ => ⟨rfl, .forward hs (Lexeme.triviaWidth_le s.cursor.rest)⟩

theorem skipBlanks_steady : Steady text skipBlanks :=
  .of_rest fun _ hs _ => ⟨rfl, .forward hs (List.takeWhile_prefix _).length_le⟩

variable {what : String} {recognise : List Char → Option (α × Nat)}

theorem token_bites (hwhat : what ≠ "") (h : Bounded recognise) :
    Bites text (token what recognise) := by
  refine .bind_right skipTrivia_steady fun _ => .of_rest fun s hs => ?_
  cases hfound : recognise s.cursor.rest with
  | none => exact ⟨.note hs hwhat, fun _ _ hrun => by cases hrun⟩
  | some found =>
    refine ⟨.forward hs (h _ _ _ hfound).2, fun _ _ hrun => ?_⟩
    cases hrun
    exact Nat.lt_add_of_pos_right (h _ _ _ hfound).1

theorem skipTrivia_notes : Notes text skipTrivia := fun _ _ _ h => by cases h

theorem token_notes : Notes text (token what recognise) := by
  refine skipTrivia_notes.bind skipTrivia_steady fun _ => .of_rest fun s hs s' hrun => ?_
  cases hfound : recognise s.cursor.rest with
  | none =>
    rw [hfound] at hrun
    exact Notes.fail s hs s' hrun
  | some found =>
    rw [hfound] at hrun
    cases hrun

theorem quote_ne_empty (word : String) : quote word ≠ "" := fun h => by
  simpa [quote, Text.quoted] using congrArg String.toList h

theorem keyword_bites {word : String} (h : word ≠ "") : Bites text (keyword word) :=
  token_bites (quote_ne_empty word) (.keyword h)

theorem symbol_bites {x : String} (h : x ≠ "") : Bites text (symbol x) :=
  token_bites (quote_ne_empty x) (.symbol h)

theorem symbol_steady {x : String} (h : x ≠ "") : Steady text (symbol x) := (symbol_bites h).steady

theorem identifier_bites : Bites text identifier := token_bites (by decide) .identifier

theorem double_bites : Bites text double := token_bites (by decide) .double

theorem literal_bites : Bites text literal := token_bites (by decide) .literal

/-- A word that stands for an integer. -/
def truth : Parser Int64 :=
  attempt (do keyword "true"; return 1) <|> attempt (do keyword "false"; return 0) <|>
    fail "integer"

theorem truth_bites : Bites text truth := by
  have hword {word : String} (h : word ≠ "") (n : Int64) :
      Bites text (attempt do keyword word; return n) :=
    ((keyword_bites h).bind fun _ => .pure n).attempt
  have hfail : Bites text (fail "integer" : Parser Int64) :=
    ⟨.fail (by decide), fun _ _ _ _ h => by cases h⟩
  exact (hword (by decide) 1).orElse ((hword (by decide) 0).orElse hfail)

theorem integer_bites : Bites text integer := by
  refine .bind_right skipTrivia_steady fun _ => .of_rest fun s hs => ?_
  cases hfound : integerLexeme? s.cursor.rest with
  | some found =>
    refine ⟨.forward hs (Bounded.integer _ _ _ hfound).2, fun _ _ hrun => ?_⟩
    cases hrun
    exact Nat.lt_add_of_pos_right (Bounded.integer _ _ _ hfound).1
  | none => exact ⟨(truth_bites.steady s hs (Nat.zero_le _)).2, truth_bites.further s hs⟩

theorem separator_steady : Steady text separator :=
  (symbol_steady (by decide)).succeeds.bind fun _ =>
    .ite (.pure ()) (symbol_steady (by decide)).succeeds.discard

theorem annotation_bites : Bites text annotation :=
  identifier_bites.map.bind fun _ => (symbol_steady (by decide)).bind fun _ =>
    literal_bites.steady.discard.bind fun _ => separator_steady

theorem annotations_steady : Steady text annotations :=
  Agree.discard <| .optional <| (symbol_steady (by decide)).bind fun _ =>
    annotation_bites.steady.many.discard.bind fun _ => symbol_steady (by decide)

end Token

/-! ## Rules with a memo -/

section Rule

variable {r : ListRule} {body : Parser (List r.Item)} {s s' : State}

theorem stop?_of_at? {offset : Nat} {answer : Option (List r.Item)} {stop : Cursor}
    (h : r.slot.at? offset s = some (.settled answer stop)) : s.stop? r offset = some stop := by
  rw [State.stop?, h]
  rfl

theorem at?_of_stop? {offset : Nat} {stop : Cursor} (h : s.stop? r offset = some stop) :
    ∃ answer, r.slot.at? offset s = some (.settled answer stop) := by
  obtain ⟨e, he, hstop⟩ := Option.bind_eq_some_iff.mp h
  cases e with
  | running => cases hstop
  | settled answer stop' =>
    cases hstop
    exact ⟨answer, he⟩

theorem at?_of_remembered? (h : remembered? r.slot s = none) :
    r.slot.at? s.cursor.offset s = none := by
  have hcursor : HasCursor.cursor s = s.cursor := rfl
  cases hentry : r.slot.at? s.cursor.offset s with
  | none => rfl
  | some e => rcases e with recursed | ⟨_ | as, stop⟩ <;> simp [remembered?, hcursor, hentry] at h

theorem exists_remembered? {stop : Cursor} (h : s.stop? r s.cursor.offset = some stop) :
    ∃ result, remembered? r.slot s = some result := by
  refine Option.ne_none_iff_exists'.mp fun hread => ?_
  obtain ⟨answer, hentry⟩ := at?_of_stop? h
  rw [at?_of_remembered? hread] at hentry
  cases hentry

theorem remembered?_onward (hs : Reached text s) {a : Option (List r.Item)}
    (h : remembered? r.slot s = some (a, s')) : Onward text s s' := by
  have hcursor : HasCursor.cursor s = s.cursor := rfl
  cases hentry : r.slot.at? s.cursor.offset s with
  | none => simp [remembered?, hcursor, hentry] at h
  | some e =>
    rcases e with recursed | ⟨_ | as, stop⟩
    · simp only [remembered?, hcursor, hentry, Option.some.injEq] at h
      cases h
      have hstop : s.stop? r s.cursor.offset = none := by rw [State.stop?, hentry]; rfl
      exact ⟨(Later.refl hs).record (hs.run r _ true) (by simp [hstop]),
        by rw [ListRule.cursor_record]⟩
    · simp only [remembered?, hcursor, hentry, Option.some.injEq] at h
      cases h
      exact .refl hs
    · simp only [remembered?, hcursor, hentry, Option.some.injEq] at h
      cases h
      have hstop := stop?_of_at? hentry
      exact ⟨(Later.refl hs).moved (hs.reread hstop), (hs.placed.stop _ _ _ hstop).2⟩

theorem remembered_steady : Steady text (remembered r.slot) := by
  refine fun s hs _ => ⟨rfl, ?_⟩
  cases h : remembered? r.slot s with
  | none =>
    rw [remembered, h]
    exact .refl hs
  | some result =>
    rw [remembered, h]
    exact remembered?_onward hs h

variable (hbody : Steady text body)

include hbody

/-- A round of growing is the last one, or it makes the answer longer. -/
theorem growRound_cases (hs : Reached text s) {s₀ : State} (hs₀ : Reached text s₀) :
    ∃ s', Later text s s' ∧ ((∀ loop, growRound r.slot body s₀.cursor loop s = s') ∨
      (∀ loop, growRound r.slot body s₀.cursor loop s = loop s') ∧
        ∀ stop, s.stop? r s₀.cursor.offset = some stop →
          ∃ stop', s'.stop? r s₀.cursor.offset = some stop' ∧ stop.offset < stop'.offset) := by
  rcases hrun : body (HasCursor.moveTo s₀.cursor s) with ⟨_ | as, s₁⟩
  all_goals
    have honward := hbody.onward (hs.back hs₀) hrun
    have hlater : Later text s s₁ := ((Later.refl hs).moved (hs.back hs₀)).trans honward.toLater
  · exact ⟨s₁, hlater, .inl fun _ => growRound_failed hrun⟩
  cases hstop : s₁.stop? r s₀.cursor.offset with
  | none =>
    refine ⟨s₁, hlater, .inl fun _ => growRound_unsettled hrun fun answer stop hentry => ?_⟩
    rw [stop?_of_at? hentry] at hstop
    cases hstop
  | some stop =>
    obtain ⟨answer, hentry⟩ := at?_of_stop? hstop
    by_cases hlt : stop.offset < s₁.cursor.offset
    · have hsettled := hlater.reached.settle r (some as) honward.cursor
      refine ⟨_, hlater.trans ((Later.refl hlater.reached).record hsettled fun stop' hstop' => ?_),
        .inr ⟨fun _ => growRound_further hrun hentry hlt, fun stop' hstop' => ?_⟩⟩
      · cases hstop.symm.trans hstop'
        exact ⟨s₁.cursor, rfl, hlt.le⟩
      · obtain ⟨stop'', hstop'', hle⟩ := hlater.kept _ _ _ hstop'
        cases hstop.symm.trans hstop''
        exact ⟨s₁.cursor, State.stop?_record_self r _ _ s₁, hle.trans_lt hlt⟩
    · exact ⟨s₁, hlater, .inl fun _ => growRound_done hrun hentry (Nat.le_of_not_lt hlt)⟩

theorem grow_later (hs : Reached text s) {s₀ : State} (hs₀ : Reached text s₀) (n : Nat) :
    Later text s (grow r.slot body s₀.cursor n s) := by
  induction n generalizing s with
  | zero => exact .refl hs
  | succ n ih =>
    rw [grow_succ]
    obtain ⟨s', hlater, hround | ⟨hround, -⟩⟩ := growRound_cases hbody hs hs₀
    · rwa [hround]
    · rw [hround]
      exact hlater.trans (ih hlater.reached)

theorem evaluate_onward (hs : Reached text s) (hnone : r.slot.at? s.cursor.offset s = none) :
    Onward text s (evaluate r.slot body s).2 := by
  have hfresh : s.stop? r s.cursor.offset = none := by rw [State.stop?, hnone]; rfl
  have hbegin : Later text s (r.slot.record s.cursor.offset (.running false) s) :=
    (Later.refl hs).record (hs.run r _ false) (by simp [hfresh])
  rcases hrun : body (r.slot.record s.cursor.offset (.running false) s) with ⟨answer, s₁⟩
  have honward := hbody.onward hbegin.reached hrun
  have hle : s.cursor.offset ≤ s₁.cursor.offset := by
    have := honward.cursor
    rwa [ListRule.cursor_record] at this
  have hsettled : Later text s (r.slot.record s.cursor.offset (.settled answer s₁.cursor) s₁) :=
    (hbegin.trans honward.toLater).record (honward.reached.settle r _ hle) (by simp [hfresh])
  rcases answer with _ | as
  · rw [evaluate_of_none rfl hrun]
    exact .back hs hsettled
  by_cases hrecursed : r.slot.at? s.cursor.offset s₁ = some (.running true)
  · have hgrown := grow_later hbody hsettled.reached hs (s.cursor.rest.length + 1)
    generalize hgrow : grow r.slot body s.cursor (s.cursor.rest.length + 1) _ = s₂ at hgrown
    -- the entry that was settled before growing is still there to be read
    obtain ⟨stop, hstop, -⟩ := hgrown.kept r s.cursor.offset s₁.cursor
      (State.stop?_record_self r _ _ s₁)
    rw [← State.stop?_moved s₂ s.cursor] at hstop
    obtain ⟨⟨answer, s₃⟩, hread⟩ := exists_remembered? hstop
    rw [evaluate_of_grown rfl hrun hrecursed hgrow hread]
    have hback := Onward.back hs (hsettled.trans hgrown)
    exact hback.trans (remembered?_onward hback.reached hread)
  · rw [evaluate_of_seed rfl hrun hrecursed]
    exact ⟨hsettled, by rw [ListRule.cursor_record]; exact hle⟩

theorem apply_steady : Steady text (apply r.slot body) := by
  refine fun s hs _ => ⟨rfl, ?_⟩
  cases h : remembered? r.slot s with
  | none =>
    rw [apply, h]
    exact evaluate_onward hbody hs (at?_of_remembered? h)
  | some result =>
    rw [apply, h]
    exact remembered?_onward hs h

end Rule

end ThriftRpc.Idl.Parser
