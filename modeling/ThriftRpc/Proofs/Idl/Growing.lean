import ThriftRpc.Idl.Parser.Definition
import ThriftRpc.Proofs.Idl.Running

/-!
# Lists by left recursion

A list rule asks for itself, so that its answer grows from a seed by an item a round. It answers the
seed and every item behind it. The same holds of an answer that is already in the memo, if the memo
holds nothing but such answers.
-/

namespace ThriftRpc.Idl.Parser

open Packrat
open Packrat.Memo (at?_record)
open Text (Cursor)

variable {α : Type}

/-- What a list rule runs: a shorter list and one more item, or else `base`. -/
def oneMore (slot : Slot State (List α)) (item : Parser α) (base : Parser (List α)) :
    Parser (List α) :=
  attempt (do
    let items ← remembered slot
    return items ++ [← item]) <|> base

/-- The memo that a slot stands for. -/
structure Part (slot : Slot State α) where
  get : Memos → Memo α
  set : Memo α → Memos → Memos
  get_memos : ∀ s, get s.memos = slot.get s := by exact fun _ => rfl
  memos_set : ∀ m s, (slot.set m s).memos = set m s.memos := by exact fun _ _ => rfl
  cursor_set : ∀ m s, (slot.set m s).cursor = s.cursor := by exact fun _ _ => rfl
  get_set : ∀ m x, get (set m x) = m := by exact fun _ _ => rfl
  set_set : ∀ m n x, set m (set n x) = set m x := by exact fun _ _ _ => rfl
  set_get : ∀ x, set (get x) x = x := by exact fun _ => rfl

/-- The rule is being evaluated: its memo is `m₁`, and was `m` before. -/
def Amid {slot : Slot State (List α)} (part : Part slot) (J : Memos → Prop)
    (m m₁ : Memo (List α)) (x : Memos) : Prop :=
  part.get x = m₁ ∧ J (part.set m x)

section Answers

variable (L : Set (Memos → Prop)) (item : Parser α) (base : Parser (List α))

/-- From `c` there is a seed with items behind it, `as` in all, up to `stop`. -/
def Grown (c : Cursor) (as : List α) (stop : Cursor) : Prop :=
  ∃ seed more c₁, as = seed ++ more ∧ Takes L base c seed c₁ ∧ Chain L item c₁ more stop

/-- An entry tells the truth on the list rule at `c`. -/
def Tells (c : Cursor) : Entry (List α) → Prop
  | .running _ => False
  | .settled none _ => Fails L base c
  | .settled (some as) stop => Grown L item base c as stop

/-- Every entry tells the truth on its place in the text. -/
def Sound (src : List Char) (m : Memo (List α)) : Prop :=
  ∀ k e, m.at? k = some e → Tells L item base ((Cursor.ofText src).advance k) e

/-- The properties in `K` let the memo of a rule hold a true entry at `c`, and no other. The item
and the base of the rule keep those in `L`, as they leave this memo alone. -/
structure CarriesAt (c : Cursor) {slot : Slot State (List α)} (part : Part slot)
    (K : Set (Memos → Prop)) : Prop where
  sound : ∀ J ∈ K, ∀ x, J x → ∀ e, (part.get x).at? c.offset = some e → Tells L item base c e
  renew : ∀ J ∈ K, ∀ x m e, J x → m.at? c.offset = some e → Tells L item base c e →
    (∀ k, k ≠ c.offset → m.at? k = (part.get x).at? k) → J (part.set m x)
  inner : ∀ J ∈ K, ∀ m m₁, Amid part J m m₁ ∈ L

/-- The properties in `K` let the memo of a rule hold true entries. The item and the base of the
rule keep those in `L`, as they leave this memo alone. -/
structure Carries (src : List Char) {slot : Slot State (List α)} (part : Part slot)
    (K : Set (Memos → Prop)) : Prop where
  sound : ∀ J ∈ K, ∀ x, J x → Sound L item base src (part.get x)
  renew : ∀ J ∈ K, ∀ x m, J x → Sound L item base src m → J (part.set m x)
  inner : ∀ J ∈ K, ∀ m m₁, Amid part J m m₁ ∈ L

end Answers

section Growing

variable {L : Set (Memos → Prop)} {item : Parser α} {base : Parser (List α)}
  {slot : Slot State (List α)} {part : Part slot} {J : Memos → Prop} {m m₁ : Memo (List α)}
  {c c₁ c' stop : Cursor} {seed as more : List α} {s : State}

theorem Part.memos_record (part : Part slot) (k : Nat) (e : Entry (List α)) (s : State) :
    (slot.record k e s).memos = part.set ((part.get s.memos).record k e) s.memos := by
  unfold Slot.record
  rw [part.memos_set, part.get_memos]

theorem Amid.at? (h : Amid part J m m₁ s.memos) (k : Nat) : slot.at? k s = m₁.at? k := by
  rw [← h.1, part.get_memos]
  rfl

theorem Amid.record (h : Amid part J m m₁ s.memos) (k : Nat) (e : Entry (List α)) :
    Amid part J m (m₁.record k e) (slot.record k e s).memos := by
  rw [part.memos_record, h.1]
  refine ⟨part.get_set _ _, ?_⟩
  rw [part.set_set]
  exact h.2

/-- A rule that asks for itself before it has an answer goes on with its base. -/
theorem oneMore_running (item : Parser α) (base : Parser (List α)) {r : Bool}
    (hs : Amid part J m m₁ s.memos)
    (hentry : m₁.at? s.cursor.offset = some (.running r)) :
    ∃ s', oneMore slot item base s = base s' ∧ s'.cursor = s.cursor ∧
      Amid part J m (m₁.record s.cursor.offset (.running true)) s'.memos := by
  have hrun := bind_of_none (f := fun items => do return items ++ [← item])
    (remembered_running rfl ((hs.at? _).trans hentry))
  exact ⟨_, orElse_of_none (attempt_of_none hrun), rfl, hs.record _ _⟩

section Settled

variable (hentry : m₁.at? c.offset = some (.settled (some as) stop))

include hentry

theorem reads_remembered : Reads {Amid part J m m₁} (· = c) (remembered slot) as (· = stop) := by
  refine fun c₀ hc₀ => ⟨stop, rfl, fun J' hJ' s hs hsc => ?_⟩
  subst hc₀ hJ'
  rw [← hsc] at hentry
  exact ⟨_, remembered_settled rfl ((hs.at? _).trans hentry), rfl, hs⟩

variable (hL : Amid part J m m₁ ∈ L)

include hL

/-- A rule with an answer adds an item to it. -/
theorem oneMore_item {a : α} (h : Takes L item stop a c₁) :
    Takes {Amid part J m m₁} (oneMore slot item base) c (as ++ [a]) c₁ := by
  have hitem : Reads {Amid part J m m₁} (· = stop) item a (· = c₁) := by
    refine fun c₀ hc₀ => ⟨c₁, rfl, fun J' hJ' => ?_⟩
    subst hc₀ hJ'
    exact h _ hL
  have hmore := (reads_remembered hentry).bind (f := fun items => do return items ++ [← item])
    (hitem.bind (Reads.pure (as ++ [a])))
  obtain ⟨_, rfl, htakes⟩ := (hmore.attempt.orElse_left (q := base)) c rfl
  exact htakes

/-- Where there is no further item, it runs its base once more. -/
theorem oneMore_last (hfail : Fails L item stop) (h : Takes L base c seed c₁) :
    Takes {Amid part J m m₁} (oneMore slot item base) c seed c₁ := by
  have hitem : Refuses {Amid part J m m₁} (· = stop) item := by
    refine fun c₀ hc₀ J' hJ' => ?_
    subst hc₀ hJ'
    exact hfail _ hL
  have hbase : Reads {Amid part J m m₁} (· = c) base seed (· = c₁) := by
    refine fun c₀ hc₀ => ⟨c₁, rfl, fun J' hJ' => ?_⟩
    subst hc₀ hJ'
    exact h _ hL
  have hmore := Refuses.bind_right (reads_remembered hentry)
    (f := fun items => do return items ++ [← item]) hitem.bind
  obtain ⟨_, rfl, htakes⟩ := (Reads.orElse_right (Declines.attempt hmore) hbase) c rfl
  exact htakes

end Settled

/-- Growing adds every item behind the answer so far, and no entry elsewhere. -/
theorem grow_chain (hL : ∀ m m₁, Amid part J m m₁ ∈ L) (hbase : Takes L base c seed c₁)
    (hchain : Chain L item stop more c') (hle : c₁.offset ≤ stop.offset) {n : Nat}
    (hn : more.length < n) (hs : Amid part J m m₁ s.memos)
    (hentry : m₁.at? c.offset = some (.settled (some as) stop)) :
    ∃ m₂, Amid part J m m₂ (grow slot (oneMore slot item base) c n s).memos ∧
      m₂.at? c.offset = some (.settled (some (as ++ more)) c') ∧
      ∀ k, k ≠ c.offset → m₂.at? k = m₁.at? k := by
  induction hchain generalizing n m₁ s as with
  | @nil stop hfail =>
    obtain ⟨n, rfl⟩ := Nat.exists_eq_add_one.mpr (Nat.zero_lt_of_lt hn)
    obtain ⟨s', hrun, hcur, hs'⟩ := oneMore_last hentry (hL m m₁) hfail hbase _ rfl
      (HasCursor.moveTo c s) hs rfl
    have hstop : (HasCursor.cursor s').offset ≤ stop.offset := by
      show s'.cursor.offset ≤ stop.offset
      rw [hcur]
      exact hle
    have hgrow : grow slot (oneMore slot item base) c (n + 1) s = s' :=
      grow_done hrun ((hs'.at? _).trans hentry) hstop
    rw [hgrow, List.append_nil]
    exact ⟨m₁, hs', hentry, fun _ _ => rfl⟩
  | @cons stop c₂ c' a more htakes hlt _ ih =>
    obtain ⟨n, rfl⟩ := Nat.exists_eq_add_one.mpr (Nat.zero_lt_of_lt hn)
    have hmore : Takes {Amid part J m m₁} (oneMore slot item base) c (as ++ [a]) c₂ :=
      oneMore_item hentry (hL m m₁) htakes
    obtain ⟨s', hrun, hcur, hs'⟩ := hmore _ rfl (HasCursor.moveTo c s) hs rfl
    have hcur' : HasCursor.cursor s' = c₂ := hcur
    have hgrow : grow slot (oneMore slot item base) c (n + 1) s =
        grow slot (oneMore slot item base) c n
          (slot.record c.offset (.settled (some (as ++ [a])) c₂) s') := by
      rw [grow_further hrun ((hs'.at? _).trans hentry) (by rw [hcur']; exact hlt), hcur']
    have hentry' : (m₁.record c.offset (.settled (some (as ++ [a])) c₂)).at? c.offset =
        some (.settled (some (as ++ [a])) c₂) := by
      rw [at?_record, if_pos rfl]
    obtain ⟨m₂, hs₂, hat, hother⟩ := ih (by omega) (by simpa using hn) (hs'.record c.offset _)
      hentry'
    rw [hgrow]
    refine ⟨m₂, hs₂, by rw [hat, List.append_assoc]; rfl, fun k hk => ?_⟩
    rw [hother k hk, at?_record, if_neg hk]

/-! ## Applying a list rule -/

theorem Amid.refl (part : Part slot) {x : Memos} (hx : J x) :
    Amid part J (part.get x) (part.get x) x := by
  refine ⟨rfl, ?_⟩
  rw [part.set_get]
  exact hx

/-- The evaluation of a rule begins with its base. -/
theorem evaluate_start (item : Parser α) (base : Parser (List α)) (part : Part slot)
    (hs : J s.memos) :
    ∃ s', oneMore slot item base (slot.record s.cursor.offset (.running false) s) = base s' ∧
      s'.cursor = s.cursor ∧ ∃ m₁ : Memo (List α), m₁.at? s.cursor.offset = some (.running true) ∧
        (∀ k, k ≠ s.cursor.offset → m₁.at? k = (part.get s.memos).at? k) ∧
        Amid part J (part.get s.memos) m₁ s'.memos := by
  have hfirst := (Amid.refl part hs).record s.cursor.offset (.running false)
  have hcur : (slot.record s.cursor.offset (.running false) s).cursor = s.cursor :=
    part.cursor_set _ s
  obtain ⟨s', hrun, hcur', hs'⟩ := oneMore_running item base (r := false) hfirst
    (by rw [hcur, at?_record, if_pos rfl])
  rw [hcur] at hcur' hs'
  refine ⟨s', hrun, hcur', _, by rw [at?_record, if_pos rfl], fun k hk => ?_, hs'⟩
  rw [at?_record, if_neg hk, at?_record, if_neg hk]

theorem Grown.unique {K : Set (Memos → Prop)} {bs : List α} {stop' : Cursor} {x : Memos}
    (hJ : J ∈ K) (hx : J x) (h : Grown K item base c as stop) (h' : Grown K item base c bs stop') :
    as = bs ∧ stop = stop' := by
  obtain ⟨seed, more, c₁, rfl, hbase, hchain⟩ := h
  obtain ⟨seed', more', c₁', rfl, hbase', hchain'⟩ := h'
  obtain ⟨rfl, rfl⟩ := hbase.unique hJ hx hbase'
  obtain ⟨rfl, rfl⟩ := hchain.unique hJ hx hchain'
  exact ⟨rfl, rfl⟩

section Applying

variable {K : Set (Memos → Prop)} (hK : CarriesAt L item base c part K)

include hK

/-- A memo with a true entry at the place is kept. -/
theorem CarriesAt.finish (hJ : J ∈ K) {m₂ : Memo (List α)} {e : Entry (List α)} {x : Memos}
    (hat : m₂.at? c.offset = some e)
    (hother : ∀ k, k ≠ c.offset → m₂.at? k = (part.get x).at? k) (he : Tells L item base c e)
    {y : Memos} (hy : Amid part J (part.get x) m₂ y) : J y := by
  have hkept := hK.renew J hJ _ m₂ e hy.2 hat he (by rwa [part.get_set])
  rwa [part.set_set, ← hy.1, part.set_get] at hkept

theorem CarriesAt.takes (h : Grown L item base c as stop) (hlen : as.length ≤ c.rest.length) :
    Takes K (apply slot (oneMore slot item base)) c as stop := by
  intro J hJ s hs hsc
  subst hsc
  have hmid := Amid.refl part hs
  have hinner := hK.inner J hJ
  cases hentry : (part.get s.memos).at? s.cursor.offset with
  | some e =>
    have htells := hK.sound J hJ _ hs e hentry
    cases e with
    | running => exact htells.elim
    | settled answer stop' =>
      cases answer with
      | none =>
        obtain ⟨seed, more, c₁, -, hbase, -⟩ := h
        exact absurd htells (hbase.not_fails (hinner _ _) hmid)
      | some bs =>
        obtain ⟨rfl, rfl⟩ := h.unique (hinner _ _) hmid htells
        exact ⟨_, apply_of_settled rfl ((hmid.at? _).trans hentry), rfl, hs⟩
  | none =>
    have hgrown := h
    obtain ⟨seed, more, c₁, rfl, hbase, hchain⟩ := h
    obtain ⟨s', hstart, hcur', m₁, hat, hother, hs'⟩ :=
      evaluate_start item base part hs
    obtain ⟨s₁, hrun, hcur₁, hs₁⟩ := hbase _ (hinner _ _) s' hs' hcur'
    have hfuel : more.length < s.cursor.rest.length + 1 := by
      rw [List.length_append] at hlen
      omega
    obtain ⟨m₂, hs₂, hat₂, hother₂⟩ := grow_chain hinner hbase hchain (Nat.le_refl _) hfuel
      (hs₁.record s.cursor.offset (.settled (some seed) c₁)) (by rw [at?_record, if_pos rfl])
    generalize hgrow : grow slot _ _ _ _ = s₂ at hs₂
    have hkept := hK.finish hJ hat₂
      (fun k hk => by rw [hother₂ k hk, at?_record, if_neg hk, hother k hk]) hgrown hs₂
    have hmoved : Amid part J (part.get s.memos) m₂
      ({ s₂ with cursor := s.cursor } : State).memos := hs₂
    have hevaluate := evaluate_of_some rfl rfl (hstart.trans hrun) ((hs₁.at? _).trans hat)
      (by rw [show HasCursor.cursor s₁ = c₁ from hcur₁]; exact hgrow) ((hmoved.at? _).trans hat₂)
    exact ⟨_, (apply_of_none rfl ((hmid.at? _).trans hentry)).trans hevaluate, rfl, hkept⟩

/-- A rule without an answer leaves the cursor where it began. -/
theorem CarriesAt.rewinds (h : Fails L base c) :
    Rewinds K (apply slot (oneMore slot item base)) c := by
  intro J hJ s hs hsc
  subst hsc
  have hmid := Amid.refl part hs
  have hinner := hK.inner J hJ
  cases hentry : (part.get s.memos).at? s.cursor.offset with
  | some e =>
    have htells := hK.sound J hJ _ hs e hentry
    cases e with
    | running => exact htells.elim
    | settled answer stop' =>
      cases answer with
      | none => exact ⟨s, apply_of_failed rfl ((hmid.at? _).trans hentry), rfl, hs⟩
      | some bs =>
        obtain ⟨seed, more, c₁, -, hbase, -⟩ := htells
        exact absurd h (hbase.not_fails (hinner _ _) hmid)
  | none =>
    obtain ⟨s', hstart, hcur', m₁, hat, hother, hs'⟩ :=
      evaluate_start item base part hs
    obtain ⟨s₁, hrun, hs₁⟩ := h _ (hinner _ _) s' hs' hcur'
    have hevaluate := evaluate_of_none rfl (hstart.trans hrun)
    have hs₂ := hs₁.record s.cursor.offset (.settled none s₁.cursor)
    have hkept := hK.finish hJ (e := .settled none s₁.cursor)
      (by rw [at?_record, if_pos rfl])
      (fun k hk => by rw [at?_record, if_neg hk, hother k hk]) h hs₂
    exact ⟨_, (apply_of_none rfl ((hmid.at? _).trans hentry)).trans hevaluate, rfl, hkept⟩

end Applying

section Everywhere

variable {src : List Char} {K : Set (Memos → Prop)} (hK : Carries L item base src part K)

include hK

theorem Carries.at (hc : c = (Cursor.ofText src).advance c.offset) :
    CarriesAt L item base c part K where
  sound J hJ x hx e hentry := by
    have htells := hK.sound J hJ x hx _ e hentry
    rwa [← hc] at htells
  renew J hJ x m e hx hat he hother := by
    refine hK.renew J hJ x m hx fun k e' hk => ?_
    by_cases hkc : k = c.offset
    · subst hkc
      cases hat.symm.trans hk
      rwa [← hc]
    · exact hK.sound J hJ x hx k e' ((hother k hkc).symm.trans hk)
  inner := hK.inner

theorem Carries.takes (h : Grown L item base c as stop) (hlen : as.length ≤ c.rest.length)
    (hc : c = (Cursor.ofText src).advance c.offset) :
    Takes K (apply slot (oneMore slot item base)) c as stop := (hK.at hc).takes h hlen

theorem Carries.fails (h : Fails L base c) (hc : c = (Cursor.ofText src).advance c.offset) :
    Fails K (apply slot (oneMore slot item base)) c := by
  intro J hJ s hs hsc
  obtain ⟨s', hrun, -, hs'⟩ := (hK.at hc).rewinds h J hJ s hs hsc
  exact ⟨s', hrun, hs'⟩

end Everywhere

end Growing

end ThriftRpc.Idl.Parser
