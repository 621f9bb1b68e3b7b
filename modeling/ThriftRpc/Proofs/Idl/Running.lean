import Mathlib.Data.Set.Basic
import ThriftRpc.Idl.Parser.Token
import ThriftRpc.Proofs.Packrat.Running

/-!
# Running a parser from a place

What a parser answers depends on the cursor, and on the memos as far as they may be wrong. Here a
parser is followed from the cursors with one property to cursors with another, while the memos keep
every property of a given class. The larger the class, the less the parser does to the memos; where
the class holds every property, it leaves them alone.
-/

namespace ThriftRpc.Idl

open Packrat (Memo bind_of_some bind_of_none orElse_of_some orElse_of_none)
open Text (Cursor)

/-- The memos of a state. -/
structure Memos where
  fields : Memo (List Field)
  functions : Memo (List Function)
  members : Memo (List EnumMember)
  literals : Memo (List String)

def State.memos (s : State) : Memos :=
  ⟨s.fieldLists, s.functionLists, s.memberLists, s.literalLists⟩

theorem State.memos_note (s : State) (token : String) : (s.note token).memos = s.memos := by
  simp only [State.note]
  split <;> split <;> rfl

namespace Parser

variable {α β : Type} {K : Set (Memos → Prop)}

section Run

variable {s s' : State} {a : α}

theorem attempt_of_some {p : Parser α} (h : p s = (some a, s')) :
    attempt p s = (some a, s') := by
  unfold attempt
  rw [h]

theorem attempt_of_none {p : Parser α} (h : p s = (none, s')) :
    attempt p s = (none, { s' with cursor := s.cursor }) := by
  unfold attempt
  rw [h]

theorem attempt_eq_some {p : Parser α} (h : attempt p s = (some a, s')) : p s = (some a, s') := by
  rcases hp : p s with ⟨_ | b, s₁⟩
  · rw [attempt_of_none hp] at h
    cases h
  · exact (attempt_of_some hp).symm.trans h

theorem attempt_eq_none {p : Parser α} (h : attempt p s = (none, s')) :
    ∃ s₁, p s = (none, s₁) ∧ s' = { s₁ with cursor := s.cursor } := by
  rcases hp : p s with ⟨_ | b, s₁⟩
  · rw [attempt_of_none hp] at h
    cases h
    exact ⟨s₁, rfl, rfl⟩
  · rw [attempt_of_some hp] at h
    cases h

end Run

/-- From the cursor `c` the parser answers `a` and moves to `c'`. -/
def Takes (K : Set (Memos → Prop)) (p : Parser α) (c : Cursor) (a : α) (c' : Cursor) : Prop :=
  ∀ J ∈ K, ∀ s : State, J s.memos → s.cursor = c →
    ∃ s', p s = (some a, s') ∧ s'.cursor = c' ∧ J s'.memos

def Fails (K : Set (Memos → Prop)) (p : Parser α) (c : Cursor) : Prop :=
  ∀ J ∈ K, ∀ s : State, J s.memos → s.cursor = c → ∃ s', p s = (none, s') ∧ J s'.memos

/-- The parser fails and is back where it began. -/
def Rewinds (K : Set (Memos → Prop)) (p : Parser α) (c : Cursor) : Prop :=
  ∀ J ∈ K, ∀ s : State, J s.memos → s.cursor = c →
    ∃ s', p s = (none, s') ∧ s'.cursor = c ∧ J s'.memos

/-- From the cursors with `P` the parser answers `a` and moves to cursors with `Q`. -/
def Reads (K : Set (Memos → Prop)) (P : Cursor → Prop) (p : Parser α) (a : α)
    (Q : Cursor → Prop) : Prop :=
  ∀ c, P c → ∃ c', Q c' ∧ Takes K p c a c'

def Refuses (K : Set (Memos → Prop)) (P : Cursor → Prop) (p : Parser α) : Prop :=
  ∀ c, P c → Fails K p c

def Declines (K : Set (Memos → Prop)) (P : Cursor → Prop) (p : Parser α) : Prop :=
  ∀ c, P c → Rewinds K p c

/-! ## Combining parsers -/

section Combining

variable {P Q R : Cursor → Prop} {p q : Parser α} {f : α → Parser β} {a : α} {b : β}

theorem Reads.pure (a : α) : Reads K P (pure a) a P :=
  fun c hc => ⟨c, hc, fun _ _ s hs hsc => ⟨s, rfl, hsc, hs⟩⟩

theorem Reads.bind (h : Reads K P p a Q) (hf : Reads K Q (f a) b R) : Reads K P (p >>= f) b R := by
  intro c hc
  obtain ⟨c₁, hc₁, hp⟩ := h c hc
  obtain ⟨c₂, hc₂, hf⟩ := hf c₁ hc₁
  refine ⟨c₂, hc₂, fun J hJ s hs hsc => ?_⟩
  obtain ⟨s₁, hrun, hcur₁, hs₁⟩ := hp J hJ s hs hsc
  obtain ⟨s₂, hrun₂, hcur₂, hs₂⟩ := hf J hJ s₁ hs₁ hcur₁
  exact ⟨s₂, (bind_of_some hrun).trans hrun₂, hcur₂, hs₂⟩

theorem Refuses.bind (h : Refuses K P p) : Refuses K P (p >>= f) := by
  intro c hc J hJ s hs hsc
  obtain ⟨s', hrun, hs'⟩ := h c hc J hJ s hs hsc
  exact ⟨s', bind_of_none hrun, hs'⟩

theorem Refuses.bind_right (h : Reads K P p a Q) (hf : Refuses K Q (f a)) :
    Refuses K P (p >>= f) := by
  intro c hc J hJ s hs hsc
  obtain ⟨c₁, hc₁, hp⟩ := h c hc
  obtain ⟨s₁, hrun, hcur₁, hs₁⟩ := hp J hJ s hs hsc
  obtain ⟨s₂, hrun₂, hs₂⟩ := hf c₁ hc₁ J hJ s₁ hs₁ hcur₁
  exact ⟨s₂, (bind_of_some hrun).trans hrun₂, hs₂⟩

theorem Declines.bind (h : Declines K P p) : Declines K P (p >>= f) := by
  intro c hc J hJ s hs hsc
  obtain ⟨s', hrun, hcur, hs'⟩ := h c hc J hJ s hs hsc
  exact ⟨s', bind_of_none hrun, hcur, hs'⟩

theorem Declines.refuses (h : Declines K P p) : Refuses K P p := by
  intro c hc J hJ s hs hsc
  obtain ⟨s', hrun, -, hs'⟩ := h c hc J hJ s hs hsc
  exact ⟨s', hrun, hs'⟩

theorem Declines.failure : Declines K P (failure : Parser α) :=
  fun _ _ _ _ s hs hsc => ⟨s, rfl, hsc, hs⟩

theorem Refuses.fail {what : String} : Refuses K P (fail what : Parser α) :=
  fun _ _ _ _ s hs _ => ⟨s.note what, rfl, (s.memos_note what).symm ▸ hs⟩

theorem Reads.attempt (h : Reads K P p a Q) : Reads K P (attempt p) a Q := by
  intro c hc
  obtain ⟨c', hc', hp⟩ := h c hc
  refine ⟨c', hc', fun J hJ s hs hsc => ?_⟩
  obtain ⟨s', hrun, hcur, hs'⟩ := hp J hJ s hs hsc
  exact ⟨s', attempt_of_some hrun, hcur, hs'⟩

theorem Declines.attempt (h : Refuses K P p) : Declines K P (attempt p) := by
  intro c hc J hJ s hs hsc
  obtain ⟨s', hrun, hs'⟩ := h c hc J hJ s hs hsc
  exact ⟨_, attempt_of_none hrun, hsc, hs'⟩

theorem Reads.orElse_left (h : Reads K P p a Q) : Reads K P (p <|> q) a Q := by
  intro c hc
  obtain ⟨c', hc', hp⟩ := h c hc
  refine ⟨c', hc', fun J hJ s hs hsc => ?_⟩
  obtain ⟨s', hrun, hcur, hs'⟩ := hp J hJ s hs hsc
  exact ⟨s', orElse_of_some hrun, hcur, hs'⟩

theorem Reads.orElse_right (hp : Declines K P p) (h : Reads K P q a Q) :
    Reads K P (p <|> q) a Q := by
  intro c hc
  obtain ⟨c', hc', hq⟩ := h c hc
  refine ⟨c', hc', fun J hJ s hs hsc => ?_⟩
  obtain ⟨s₁, hrun₁, hcur₁, hs₁⟩ := hp c hc J hJ s hs hsc
  obtain ⟨s', hrun, hcur, hs'⟩ := hq J hJ s₁ hs₁ hcur₁
  exact ⟨s', (orElse_of_none hrun₁).trans hrun, hcur, hs'⟩

theorem Refuses.orElse (hp : Declines K P p) (hq : Refuses K P q) : Refuses K P (p <|> q) := by
  intro c hc J hJ s hs hsc
  obtain ⟨s₁, hrun₁, hcur₁, hs₁⟩ := hp c hc J hJ s hs hsc
  obtain ⟨s', hrun, hs'⟩ := hq c hc J hJ s₁ hs₁ hcur₁
  exact ⟨s', (orElse_of_none hrun₁).trans hrun, hs'⟩

theorem Declines.orElse (hp : Declines K P p) (hq : Declines K P q) : Declines K P (p <|> q) := by
  intro c hc J hJ s hs hsc
  obtain ⟨s₁, hrun₁, hcur₁, hs₁⟩ := hp c hc J hJ s hs hsc
  obtain ⟨s', hrun, hcur, hs'⟩ := hq c hc J hJ s₁ hs₁ hcur₁
  exact ⟨s', (orElse_of_none hrun₁).trans hrun, hcur, hs'⟩

theorem Reads.map {g : α → β} (h : Reads K P p a Q) : Reads K P (g <$> p) (g a) Q := by
  rw [map_eq_pure_bind]
  exact h.bind (Reads.pure (g a))

theorem Refuses.map {g : α → β} (h : Refuses K P p) : Refuses K P (g <$> p) := by
  rw [map_eq_pure_bind]
  exact h.bind

theorem Reads.discard (h : Reads K P p a Q) : Reads K P (discard p) () Q := h.map

theorem Reads.optional (h : Reads K P p a Q) : Reads K P (optional? p) (some a) Q :=
  h.attempt.map.orElse_left

theorem Refuses.optional (h : Refuses K P p) : Reads K P (optional? p) none P := by
  have hback : Declines K P (some <$> Parser.attempt p) := by
    rw [map_eq_pure_bind]
    exact (Declines.attempt h).bind
  exact Reads.orElse_right hback (Reads.pure none)

theorem Reads.succeeds (h : Reads K P p a Q) : Reads K P (succeeds p) true Q :=
  h.optional.bind (Reads.pure true)

theorem Refuses.succeeds (h : Refuses K P p) : Reads K P (succeeds p) false P :=
  h.optional.bind (Reads.pure false)

theorem Declines.firstOf {ps : List (Parser α)} (h : ∀ p ∈ ps, Refuses K P p) :
    Declines K P (firstOf ps) := by
  induction ps with
  | nil => exact Declines.failure
  | cons p ps ih =>
    rw [List.forall_mem_cons] at h
    exact (Declines.attempt h.1).orElse (ih h.2)

theorem Reads.firstOf_head {ps : List (Parser α)} (h : Reads K P p a Q) :
    Reads K P (firstOf (p :: ps)) a Q := h.attempt.orElse_left

theorem Reads.firstOf_tail {ps : List (Parser α)} (hp : Refuses K P p)
    (h : Reads K P (firstOf ps) a Q) : Reads K P (firstOf (p :: ps)) a Q :=
  Reads.orElse_right (Declines.attempt hp) h

theorem Reads.anti {L : Set (Memos → Prop)} (h : Reads L P p a Q) (hK : K ⊆ L) :
    Reads K P p a Q := by
  intro c hc
  obtain ⟨c', hc', hp⟩ := h c hc
  exact ⟨c', hc', fun J hJ => hp J (hK hJ)⟩

theorem Reads.imp (h : Reads K P p a Q) {P' Q' : Cursor → Prop} (hP : ∀ c, P' c → P c)
    (hQ : ∀ c, Q c → Q' c) : Reads K P' p a Q' := by
  intro c hc
  obtain ⟨c', hc', hp⟩ := h c (hP c hc)
  exact ⟨c', hQ c' hc', hp⟩

end Combining

section Moving

variable {P Q : Cursor → Prop} {a : α}

/-- A parser that looks at what lies ahead may be followed cursor by cursor. -/
theorem Reads.of_rest {f : List Char → Parser α}
    (h : ∀ c, P c → Reads K (· = c) (f c.rest) a Q) : Reads K P (rest >>= f) a Q := by
  intro c hc
  obtain ⟨c', hc', hp⟩ := h c hc c rfl
  refine ⟨c', hc', fun J hJ s hs hsc => ?_⟩
  obtain ⟨s', hrun, hcur, hs'⟩ := hp J hJ s hs hsc
  have hrest : rest s = (some c.rest, s) := by rw [← hsc]; rfl
  exact ⟨s', (bind_of_some hrest).trans hrun, hcur, hs'⟩

theorem Refuses.of_rest {f : List Char → Parser α}
    (h : ∀ c, P c → Refuses K (· = c) (f c.rest)) : Refuses K P (rest >>= f) := by
  intro c hc J hJ s hs hsc
  obtain ⟨s', hrun, hs'⟩ := h c hc c rfl J hJ s hs hsc
  have hrest : rest s = (some c.rest, s) := by rw [← hsc]; rfl
  exact ⟨s', (bind_of_some hrest).trans hrun, hs'⟩

theorem Declines.of_rest {f : List Char → Parser α}
    (h : ∀ c, P c → Declines K (· = c) (f c.rest)) : Declines K P (rest >>= f) := by
  intro c hc J hJ s hs hsc
  obtain ⟨s', hrun, hcur, hs'⟩ := h c hc c rfl J hJ s hs hsc
  have hrest : rest s = (some c.rest, s) := by rw [← hsc]; rfl
  exact ⟨s', (bind_of_some hrest).trans hrun, hcur, hs'⟩

theorem Reads.advance (n : Nat) (h : ∀ c, P c → Q (c.advance n)) :
    Reads K P (advance n) () Q := by
  intro c hc
  exact ⟨c.advance n, h c hc, fun _ _ s hs hsc => ⟨_, rfl, congrArg (·.advance n) hsc, hs⟩⟩

end Moving

/-! ## Repeating -/

/-- From `c` the item is found once for each of `as`, and then no more at `c'`. -/
inductive Chain (K : Set (Memos → Prop)) (item : Parser α) : Cursor → List α → Cursor → Prop
  | nil {c : Cursor} : Fails K item c → Chain K item c [] c
  | cons {c c₁ c' : Cursor} {a : α} {as : List α} : Takes K item c a c₁ →
    c.offset < c₁.offset → Chain K item c₁ as c' → Chain K item c (a :: as) c'

section Repeating

variable {item : Parser α} {c c' : Cursor} {as : List α}

theorem Chain.repeatUpTo (h : Chain K item c as c') {n : Nat} (hn : as.length < n) :
    Reads K (· = c) (repeatUpTo n item) as (· = c') := by
  induction h generalizing n with
  | @nil c hfail =>
    obtain ⟨n, rfl⟩ := Nat.exists_eq_add_one.mpr (Nat.zero_lt_of_lt hn)
    have hrefuses : Refuses K (· = c) item := fun c₁ hc₁ => hc₁ ▸ hfail
    exact hrefuses.optional.bind (Reads.pure [])
  | @cons c c₁ c' a as htakes _ _ ih =>
    obtain ⟨n, rfl⟩ := Nat.exists_eq_add_one.mpr (Nat.zero_lt_of_lt hn)
    have hreads : Reads K (· = c) item a (· = c₁) := fun c₀ hc₀ => ⟨c₁, rfl, hc₀ ▸ htakes⟩
    have hmore := ih (n := n) (by simpa using hn)
    exact hreads.optional.bind (hmore.bind (Reads.pure (a :: as)))

theorem Chain.many (h : Chain K item c as c') (hlen : as.length ≤ c.rest.length) :
    Reads K (· = c) (many item) as (· = c') := by
  refine Reads.of_rest fun c₀ hc₀ => ?_
  rw [hc₀]
  exact h.repeatUpTo (by omega)

end Repeating

section Single

variable {p item : Parser α} {a b : α} {c c' c'' : Cursor} {J : Memos → Prop} {x : Memos}

/-- A state at a place with given memos. -/
def stateAt (c : Cursor) (x : Memos) : State :=
  ⟨c, c, [], x.fields, x.functions, x.members, x.literals⟩

theorem Takes.unique (hJ : J ∈ K) (hx : J x) (h : Takes K p c a c') (h' : Takes K p c b c'') :
    a = b ∧ c' = c'' := by
  obtain ⟨s, hrun, hcur, -⟩ := h J hJ (stateAt c x) hx rfl
  obtain ⟨s', hrun', hcur', -⟩ := h' J hJ (stateAt c x) hx rfl
  rw [hrun] at hrun'
  cases hrun'
  exact ⟨rfl, hcur.symm.trans hcur'⟩

theorem Takes.not_fails (hJ : J ∈ K) (hx : J x) (h : Takes K p c a c') : ¬ Fails K p c := by
  intro h'
  obtain ⟨s, hrun, -⟩ := h J hJ (stateAt c x) hx rfl
  obtain ⟨s', hrun', -⟩ := h' J hJ (stateAt c x) hx rfl
  rw [hrun] at hrun'
  cases hrun'

theorem Chain.unique (hJ : J ∈ K) (hx : J x) {as bs : List α} (h : Chain K item c as c')
    (h' : Chain K item c bs c'') : as = bs ∧ c' = c'' := by
  induction h generalizing bs with
  | nil hfail =>
    cases h' with
    | nil => exact ⟨rfl, rfl⟩
    | cons htakes => exact absurd hfail (htakes.not_fails hJ hx)
  | cons htakes _ _ ih =>
    cases h' with
    | nil hfail => exact absurd hfail (htakes.not_fails hJ hx)
    | cons htakes' _ hmore' =>
      obtain ⟨rfl, rfl⟩ := htakes.unique hJ hx htakes'
      obtain ⟨rfl, rfl⟩ := ih hmore'
      exact ⟨rfl, rfl⟩

end Single

end Parser

end ThriftRpc.Idl
