import ThriftRpc.Proofs.Idl.Repetition
import ThriftRpc.Proofs.Idl.Total

/-!
# Parses and the states they come to

A parse goes from one visited state to the next (`Covered`): the rules of the grammar do, and so do
the rounds in which the answer of a list rule grows. From each of these states a list rule is a loop
over its item (`Repeats`), unless it is the one that is being evaluated right there. It then finds
its answer so far instead, which is how the answer grows.

The fields of a function are read behind its name, and so behind every place where an evaluation has
begun. That is why functions find true entries for their fields.
-/

namespace ThriftRpc.Idl

open Packrat (Entry Memo HasCursor)
open Text (Cursor)

namespace Parser

variable {text : List Char} {pending : List (ListRule × Nat)} {r : ListRule} {m : Nat}
  {s s' : State}

/-- A state of a parse, at the offset `m` or further on. -/
structure Beyond (text : List Char) (pending : List (ListRule × Nat)) (m : Nat) (s : State) :
    Prop where
  visited : Visited text pending s
  le : m ≤ s.cursor.offset

/-- From a state of a parse the parser comes to another, and not to before the offset `m`. -/
def Roams (text : List Char) (pending : List (ListRule × Nat)) (m : Nat) {α : Type}
    (p : Parser α) : Prop :=
  ∀ s, Beyond text pending m s → Beyond text pending m (p s).2

section Combining

variable {α β : Type} {p q : Parser α} {f : α → Parser β} {n : Nat}

/-- The cursor moves on. -/
theorem Beyond.move (hs : Beyond text pending m s) (hmemos : s'.memos = s.memos)
    (hc : s'.cursor.Splits text) (hle : s.cursor.offset ≤ s'.cursor.offset) :
    Beyond text pending m s' :=
  ⟨hs.visited.move hmemos hc fun p hmem => (hs.visited.coherent.behind p hmem).trans hle,
    hs.le.trans hle⟩

theorem Beyond.bind (hp : Beyond text pending m (p s).2) (hf : ∀ a, Roams text pending m (f a)) :
    Beyond text pending m ((p >>= f) s).2 := by
  rcases hrun : p s with ⟨_ | a, s'⟩
  · rw [hrun] at hp
    rwa [Packrat.bind_of_none hrun]
  · rw [hrun] at hp
    rw [Packrat.bind_of_some hrun]
    exact hf a s' hp

theorem Beyond.attempt (hs : Beyond text pending m s) (hp : Beyond text pending m (p s).2) :
    Beyond text pending m (attempt p s).2 := by
  rcases hrun : p s with ⟨_ | a, s'⟩
  · rw [hrun] at hp
    rw [attempt_of_none hrun]
    exact ⟨hp.visited.move rfl hs.visited.coherent.splits hs.visited.coherent.behind, hs.le⟩
  · rw [hrun] at hp
    rwa [attempt_of_some hrun]

theorem Beyond.orElse (hp : Beyond text pending m (p s).2) (hq : Roams text pending m q) :
    Beyond text pending m ((p <|> q) s).2 := by
  rcases hrun : p s with ⟨_ | a, s'⟩
  · rw [hrun] at hp
    rw [Packrat.orElse_of_none hrun]
    exact hq s' hp
  · rw [hrun] at hp
    rwa [Packrat.orElse_of_some hrun]

/-- A parser that leaves all memos alone moves on, and does so by `n` characters if it answers. -/
theorem Beyond.of_fixed (h : Fixed text Set.univ 0 n p) (hs : Beyond text pending m s) :
    Beyond text pending m (p s).2 ∧
      ∀ a s', p s = (some a, s') → Beyond text pending (m + n) s' := by
  obtain ⟨o, c', hrun, hc', hle, hsome⟩ := h s.cursor hs.visited.coherent.splits (Nat.zero_le _)
  obtain ⟨s', hrun', rfl, hmemos⟩ := hrun (· = s.memos) (Set.mem_univ _) s rfl rfl
  have hs' : Beyond text pending m s' := hs.move hmemos hc' hle
  rw [hrun']
  refine ⟨hs', ?_⟩
  rintro a _ ⟨⟩
  exact ⟨hs'.visited, (Nat.add_le_add_right hs.le n).trans (hsome rfl)⟩

theorem Roams.of_fixed (h : Fixed text Set.univ 0 n p) : Roams text pending m p :=
  fun _ hs => (hs.of_fixed h).1

theorem Roams.pure (a : α) : Roams text pending m (pure a) := fun _ hs => hs

theorem Roams.bind (hp : Roams text pending m p) (hf : ∀ a, Roams text pending m (f a)) :
    Roams text pending m (p >>= f) := fun s hs => (hp s hs).bind hf

/-- What follows a parser that takes characters is run further on. -/
theorem Roams.bind_further (hp : Fixed text Set.univ 0 n p)
    (hf : ∀ a, Roams text pending (m + n) (f a)) : Roams text pending m (p >>= f) := by
  intro s hs
  obtain ⟨hs', hfurther⟩ := hs.of_fixed hp
  rcases hrun : p s with ⟨_ | a, s'⟩
  · rw [hrun] at hs'
    rwa [Packrat.bind_of_none hrun]
  · have hend := hf a s' (hfurther a s' hrun)
    rw [Packrat.bind_of_some hrun]
    exact ⟨hend.visited, (Nat.le_add_right m n).trans hend.le⟩

theorem Roams.attempt (hp : Roams text pending m p) : Roams text pending m (attempt p) :=
  fun s hs => hs.attempt (hp s hs)

theorem Roams.orElse (hp : Roams text pending m p) (hq : Roams text pending m q) :
    Roams text pending m (p <|> q) := fun s hs => (hp s hs).orElse hq

theorem Roams.optional (hp : Roams text pending m p) : Roams text pending m (optional? p) := by
  refine Roams.orElse ?_ (.pure none)
  rw [map_eq_pure_bind]
  exact hp.attempt.bind fun a => .pure (some a)

theorem Roams.ite {b : Bool} (hp : Roams text pending m p) (hq : Roams text pending m q) :
    Roams text pending m (if b then p else q) := by
  cases b
  · exact hq
  · exact hp

theorem Roams.of_rest {f : List Char → Parser α} (h : ∀ cs, Roams text pending m (f cs)) :
    Roams text pending m (rest >>= f) := fun s hs => h s.cursor.rest s hs

theorem Roams.firstOf {ps : List (Parser α)} (h : ∀ p ∈ ps, Roams text pending m p) :
    Roams text pending m (firstOf ps) := by
  induction ps with
  | nil => exact fun _ hs => hs
  | cons p ps ih =>
    rw [List.forall_mem_cons] at h
    exact h.1.attempt.orElse (ih h.2)

end Combining

/-! ## List rules -/

section Lists

/-- From a state of a parse, a rule does what its loop does. -/
theorem Visited.alike (hs : Visited text pending s) (hnot : (r, s.cursor.offset) ∉ pending) :
    ∃ o c', Alike text {Truthful text pending} (keptBy text r s.cursor.offset) r.item (list r)
      (repetition r) s.cursor o c' :=
  Truthful.alike hs.coherent.splits (free_of_not_mem hs.coherent.behind hnot)

theorem list_roams (h : ∀ k, (r, k) ∈ pending → k < m) : Roams text pending m (list r) := by
  intro s hs
  have hnot : (r, s.cursor.offset) ∉ pending := fun hmem => Nat.not_lt.2 hs.le (h _ hmem)
  obtain ⟨o, c', halike⟩ := hs.visited.alike hnot
  obtain ⟨s', hrun, rfl, -⟩ := halike.rule _ rfl s hs.visited.coherent.memos rfl
  have hvisited := hs.visited.apply r hnot
  rw [hrun] at hvisited ⊢
  exact ⟨hvisited, hs.le.trans halike.ahead⟩

theorem fields_roams (h : ∀ k, (.fields, k) ∈ pending → k < m) : Roams text pending m fields := by
  have hlist : Roams text pending m fieldList := list_roams h
  exact hlist.optional.bind fun _ => .pure _

theorem keyword_roams {word : String} (h : word ≠ "") : Roams text pending m (keyword word) :=
  .of_fixed (keyword_fixed h)

theorem symbol_roams {x : String} (h : x ≠ "") : Roams text pending m (symbol x) :=
  .of_fixed (symbol_fixed h)

theorem identifier_roams : Roams text pending m identifier := .of_fixed identifier_fixed

theorem annotations_roams : Roams text pending m annotations := .of_fixed annotations_fixed

/-- The fields of a function lie behind its name, where no evaluation has begun. -/
theorem function_roams (h : ∀ k, (.fields, k) ∈ pending → k ≤ m) :
    Roams text pending m function := by
  have hfields : Roams text pending (m + 1) fields :=
    fields_roams fun k hmem => Nat.lt_succ_of_le (h k hmem)
  have hthrows : Roams text pending (m + 1) throwsClause :=
    (keyword_roams (by decide)).bind fun _ => (symbol_roams (by decide)).bind fun _ =>
      hfields.bind fun _ => (symbol_roams (by decide)).bind fun _ => .pure _
  have hsignature (oneway : Bool) (returns : Option Ty) :
      Roams text pending m (signature oneway returns) :=
    .bind_further identifier_fixed fun _ => (symbol_roams (by decide)).bind fun _ =>
      hfields.bind fun _ => (symbol_roams (by decide)).bind fun _ =>
      hthrows.optional.bind fun _ => annotations_roams.bind fun _ =>
      (Roams.of_fixed separator_fixed).bind fun _ => .pure _
  have honeway :
      Roams text pending m (succeeds (Parser.firstOf [keyword "oneway", keyword "async"])) :=
    .of_fixed <| Fixed.succeeds <| (keyword_fixed (by decide)).firstOf_cons <|
      (keyword_fixed (by decide)).firstOf_cons .firstOf_nil
  have hvoid : Roams text pending m (succeeds (keyword "void")) :=
    .of_fixed (keyword_fixed (by decide)).succeeds
  exact honeway.bind fun oneway => hvoid.bind fun _ =>
    .ite ((Roams.pure none).bind (hsignature oneway))
      ((Roams.of_fixed type_fixed.map).bind (hsignature oneway))

theorem item_roams (r : ListRule) (h : ∀ k, (.fields, k) ∈ pending → k ≤ m) :
    Roams text pending m r.item := by
  cases r with
  | fields => exact .of_fixed field_fixed
  | functions => exact function_roams h
  | members => exact .of_fixed enumMember_fixed
  | literals => exact .of_fixed textItem_fixed

theorem base_roams (r : ListRule) (h : ∀ k, (.fields, k) ∈ pending → k ≤ m) :
    Roams text pending m r.base := by
  cases r with
  | fields => exact (item_roams .fields h).bind fun _ => .pure _
  | functions => exact (item_roams .functions h).bind fun _ => .pure _
  | members => exact (item_roams .members h).bind fun _ => .pure _
  | literals => exact .pure []

/-- A rule that asks for itself moves to the end of an answer, or notes in its entry that it did. -/
theorem remembered_beyond (hs : Visited text pending s) (hmem : (r, s.cursor.offset) ∈ pending) :
    Beyond text pending s.cursor.offset (Packrat.remembered r.slot s).2 := by
  have hcursor : HasCursor.cursor s = s.cursor := rfl
  have hstart : Beyond text pending s.cursor.offset s := ⟨hs, Nat.le_refl _⟩
  cases hentry : r.slot.at? s.cursor.offset s with
  | none =>
    simp only [Packrat.remembered, Packrat.remembered?, hcursor, hentry, Option.getD_none]
    exact hstart
  | some e =>
    have hends : EndsIn text s.cursor.offset e := by
      refine hs.coherent.memos.ends r s.cursor.offset e ?_
      rw [r.part.get_memos]
      exact hentry
    rcases e with recursed | ⟨_ | as, stop⟩
    · rw [Packrat.remembered_running hcursor hentry]
      refine ⟨hs.hold _ hmem ?_, by rw [ListRule.cursor_record]⟩
      rintro _ _ ⟨⟩
    · simp only [Packrat.remembered, Packrat.remembered?, hcursor, hentry, Option.getD_some]
      exact hstart
    · rw [Packrat.remembered_settled hcursor hentry]
      obtain ⟨hc, hle⟩ := hends as stop rfl
      exact hstart.move rfl hc hle

/-- What an evaluation runs, from where it began. -/
theorem body_visited (hs : Visited text pending s) (hmem : (r, s.cursor.offset) ∈ pending) :
    Visited text pending (listBody r s).2 := by
  have hpending : ∀ k, (.fields, k) ∈ pending → k ≤ s.cursor.offset :=
    fun k hk => hs.coherent.behind _ hk
  have hstart : Beyond text pending s.cursor.offset s := ⟨hs, Nat.le_refl _⟩
  have hmore := (remembered_beyond hs hmem).bind (f := fun items => do return items ++ [← r.item])
    fun _ => (item_roams r hpending).bind fun _ => .pure _
  rw [listBody_eq]
  exact ((hstart.attempt hmore).orElse (base_roams r hpending)).visited

theorem grow_visited {c : Cursor} (hs : Visited text pending s) (hc : c.Splits text)
    (hle : ∀ p ∈ pending, p.2 ≤ c.offset) (hmem : (r, c.offset) ∈ pending) (n : Nat) :
    Visited text pending (Packrat.grow r.slot (listBody r) c n s) := by
  induction n generalizing s with
  | zero => exact hs
  | succ n ih =>
    have hbody := body_visited (s := { s with cursor := c }) (hs.move rfl hc hle) hmem
    have hahead := hbody.coherent.behind _ hmem
    rw [Packrat.grow_succ, Packrat.growRound]
    rcases hrun : listBody r (HasCursor.moveTo c s) with ⟨_ | as, s₁⟩
    all_goals
      have hrun' : listBody r { s with cursor := c } = _ := hrun
      rw [hrun'] at hbody hahead
    · exact hbody
    · have hends : EndsIn text c.offset (Entry.settled (some as) s₁.cursor) := by
        rintro _ _ ⟨⟩
        exact ⟨hbody.coherent.splits, hahead⟩
      simp only
      split
      · split
        · exact ih (hbody.hold _ hmem hends)
        · exact hbody
      · exact hbody

end Lists

/-! ## Documents -/

section Documents

theorem none_pending (r : ListRule) (m : Nat) (k : Nat)
    (hmem : (r, k) ∈ ([] : List (ListRule × Nat))) : k < m := absurd hmem List.not_mem_nil

theorem struct_roams : Roams text [] m struct := by
  have hkind : Roams text [] m structKind := .of_fixed <|
    (keyword_fixed (by decide)).succeeds.bind fun _ => .ite (.pure _) <|
      (keyword_fixed (by decide)).bind fun _ => .pure _
  have hall : Roams text [] m (discard (succeeds (keyword "xsd_all"))) :=
    .of_fixed (keyword_fixed (by decide)).succeeds.discard
  exact hkind.bind fun _ => identifier_roams.bind fun _ => hall.bind fun _ =>
    (symbol_roams (by decide)).bind fun _ => (fields_roams (none_pending _ m)).bind fun _ =>
    (symbol_roams (by decide)).bind fun _ => annotations_roams.bind fun _ => .pure _

theorem exception_roams : Roams text [] m exception :=
  (keyword_roams (by decide)).bind fun _ => identifier_roams.bind fun _ =>
    (symbol_roams (by decide)).bind fun _ => (fields_roams (none_pending _ m)).bind fun _ =>
    (symbol_roams (by decide)).bind fun _ => annotations_roams.bind fun _ => .pure _

theorem enum_roams : Roams text [] m enum :=
  (keyword_roams (by decide)).bind fun _ => identifier_roams.bind fun _ =>
    (symbol_roams (by decide)).bind fun _ =>
    (list_roams (none_pending .members m)).optional.bind fun _ =>
    (symbol_roams (by decide)).bind fun _ => annotations_roams.bind fun _ => .pure _

theorem senum_roams : Roams text [] m senum :=
  (keyword_roams (by decide)).bind fun _ => identifier_roams.bind fun _ =>
    (symbol_roams (by decide)).bind fun _ =>
    (list_roams (none_pending .literals m)).optional.bind fun _ =>
    (symbol_roams (by decide)).bind fun _ => .pure _

theorem service_roams : Roams text [] m service := by
  have hparent : Roams text [] m (optional? do keyword "extends"; identifier) :=
    .of_fixed ((keyword_fixed (by decide)).bind fun _ => identifier_fixed).optional
  exact (keyword_roams (by decide)).bind fun _ => identifier_roams.bind fun _ =>
    hparent.bind fun _ => (symbol_roams (by decide)).bind fun _ =>
    (list_roams (none_pending .functions m)).optional.bind fun _ =>
    (symbol_roams (by decide)).bind fun _ => annotations_roams.bind fun _ => .pure _

theorem element_roams : Roams text [] m element := by
  refine (Roams.of_fixed comment_fixed).orElse (.firstOf fun p hp => ?_)
  simp only [List.mem_cons, List.not_mem_nil, or_false] at hp
  rcases hp with rfl | rfl | rfl | rfl | rfl | rfl | rfl | rfl | rfl
  · exact .of_fixed inclusion_fixed
  · exact .of_fixed scope_fixed
  · exact .of_fixed constantDefinition_fixed
  · exact .of_fixed typedef_fixed
  · exact enum_roams
  · exact senum_roams
  · exact struct_roams
  · exact exception_roams
  · exact service_roams

theorem nodesUpTo_roams (n : Nat) : Roams text [] m (nodesUpTo n) := by
  have hblanks : Roams text [] m skipBlanks := .of_fixed <| .of_rest fun c hc _ =>
    (FixedAt.advance hc (List.takeWhile_prefix _).length_le).weaken (Nat.zero_le _)
  induction n with
  | zero => exact fun _ hs => hs
  | succ n ih =>
    rw [nodesUpTo_succ]
    have hmore : Roams text [] m (do return (← element) :: (← nodesUpTo n)) :=
      element_roams.bind fun _ => ih.bind fun _ => .pure _
    refine hblanks.bind fun _ => .of_rest fun cs => ?_
    cases cs with
    | nil => exact .pure []
    | cons c rest => exact hmore

end Documents

/-- The rules of the grammar lead from one visited state to the next. So do the evaluations of list
rules, each round of which begins where the rule does. -/
structure Covered (text : List Char) : Prop where
  nodes : ∀ n s, Visited text [] s → Visited text [] (nodesUpTo n s).2
  element : ∀ s, Visited text [] s → Visited text [] (element s).2
  item : ∀ (pending : List (ListRule × Nat)) (r : ListRule) (s : State),
    Visited text pending s → Visited text pending (r.item s).2
  body : ∀ (pending : List (ListRule × Nat)) (r : ListRule) (s : State),
    Visited text pending s → (r, s.cursor.offset) ∈ pending → Visited text pending (listBody r s).2
  grow : ∀ (pending : List (ListRule × Nat)) (r : ListRule) (s : State) (c : Cursor) (n : Nat),
    Visited text pending s → c.Splits text → (∀ p ∈ pending, p.2 ≤ c.offset) →
    (r, c.offset) ∈ pending → Visited text pending (Packrat.grow r.slot (listBody r) c n s)

theorem covered (text : List Char) : Covered text where
  nodes n s hs := (nodesUpTo_roams n s ⟨hs, Nat.le_refl _⟩).visited
  element s hs := (element_roams s ⟨hs, Nat.le_refl _⟩).visited
  item _ r s hs :=
    (item_roams r (fun _ hmem => hs.coherent.behind _ hmem) s ⟨hs, Nat.le_refl _⟩).visited
  body _ _ _ hs hmem := body_visited hs hmem
  grow _ _ _ _ n hs hc hle hmem := grow_visited hs hc hle hmem n

/-- A list rule gives what its loop gives, and comes to the same place. Without an answer it stays,
and behind an answer there is no further item. -/
structure Repeats (r : ListRule) (s : State) : Prop where
  answer : (list r s).1 = (repetition r s).1
  cursor : (list r s).2.cursor = (repetition r s).2.cursor
  stays : (list r s).1 = none → (list r s).2.cursor = s.cursor
  exhausts : (list r s).1.isSome = true → (r.item (list r s).2).1 = none

theorem Visited.repeats (hs : Visited text pending s) (hnot : (r, s.cursor.offset) ∉ pending) :
    Repeats r s := by
  obtain ⟨o, c', h⟩ := hs.alike hnot
  have hkept := Truthful.mem_keptBy text (free_of_not_mem hs.coherent.behind hnot)
  obtain ⟨s₁, hrun₁, rfl, hs₁⟩ := h.rule _ rfl s hs.coherent.memos rfl
  obtain ⟨s₂, hrun₂, hcursor, -⟩ := h.loop _ hkept s hs.coherent.memos rfl
  rw [← hcursor] at h
  constructor
  · rw [hrun₁, hrun₂]
  · rw [hrun₁, hrun₂, hcursor]
  · rw [hrun₁, ← hcursor]
    exact h.stays
  · intro hsome
    rw [hrun₁] at hsome ⊢
    obtain ⟨s₃, hfail, -⟩ := h.exhausts hsome _ hkept s₁ hs₁ hcursor.symm
    rw [hfail]

/-- From one place in the text a rule always does the same. -/
theorem Visited.list_again {pending' : List (ListRule × Nat)} (hs : Visited text pending s)
    (hnot : (r, s.cursor.offset) ∉ pending) (hs' : Visited text pending' s')
    (hnot' : (r, s.cursor.offset) ∉ pending') (hcursor : s'.cursor = s.cursor) :
    (list r s').1 = (list r s).1 ∧ (list r s').2.cursor = (list r s).2.cursor := by
  obtain ⟨o, c₁, h⟩ := hs.alike hnot
  obtain ⟨o', c₂, h'⟩ := hs'.alike (hcursor ▸ hnot')
  obtain ⟨J, hJ, hempty⟩ := exists_keptBy text r s.cursor.offset
  obtain ⟨s₁, hrun₁, hcur₁, -⟩ := h.rule _ rfl s hs.coherent.memos rfl
  obtain ⟨s₂, hrun₂, hcur₂, -⟩ := h'.rule _ rfl s' hs'.coherent.memos rfl
  rw [hcursor] at h'
  obtain ⟨rfl, rfl⟩ := h.loop.unique hJ hempty h'.loop
  rw [hrun₁, hrun₂, hcur₁, hcur₂]
  exact ⟨rfl, rfl⟩

/-- Wherever a parse comes to, a list rule is a loop over its item, unless it is being evaluated
from that very place. It does the same again whenever the parse comes back. -/
theorem list_eq_repetition (text : List Char) :
    Covered text ∧ ∀ (pending : List (ListRule × Nat)) (r : ListRule) (s : State),
      Visited text pending s → (r, s.cursor.offset) ∉ pending →
      Repeats r s ∧ ∀ (pending' : List (ListRule × Nat)) (s' : State), Visited text pending' s' →
        (r, s.cursor.offset) ∉ pending' → s'.cursor = s.cursor →
        (list r s').1 = (list r s).1 ∧ (list r s').2.cursor = (list r s).2.cursor := by
  refine ⟨covered text, fun pending r s hs hnot => ⟨hs.repeats hnot, ?_⟩⟩
  exact fun pending' s' hs' hnot' hcursor => hs.list_again hnot hs' hnot' hcursor

/-- Two fields are read, and read again from where they begin. -/
theorem list_eq_repetition_fields :
    let text := "1: i32 a, 2: i32 b".toList
    let s := State.ofText text
    let back := { (list .fields s).2 with cursor := s.cursor }
    (list .fields s).1.map (·.map Field.name) = some ["a", "b"] ∧ Repeats .fields s ∧
      (list .fields back).1 = (list .fields s).1 ∧
      (list .fields back).2.cursor = (list .fields s).2.cursor := by
  intro text s back
  have hnot : (ListRule.fields, s.cursor.offset) ∉ [] := List.not_mem_nil
  have hback : Visited text [] back :=
    (Visited.start.apply .fields hnot).move rfl (.ofText text) (List.forall_mem_nil _)
  obtain ⟨hrepeats, hagain⟩ := (list_eq_repetition text).2 [] .fields s .start hnot
  exact ⟨by decide +kernel, hrepeats, hagain [] back hback hnot rfl⟩

end Parser

end ThriftRpc.Idl
