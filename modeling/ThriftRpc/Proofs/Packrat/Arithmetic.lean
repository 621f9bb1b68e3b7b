import ThriftRpc.Proofs.Packrat.Plain
import ThriftRpc.Proofs.Packrat.Running
import ThriftRpc.Proofs.Text.Cursor

/-!
# Memoized sums and products

Left recursion through a memo reads what the plain parser reads, whatever is in the memo from
before. The two rules at all offsets stand in one order, by the keys of their entries: a rule needs
no entry before its own, and while it grows only those behind it, which are never half done. So it
is enough that the entries from a key on are settled and true, and that those before are left alone.
-/

namespace ThriftRpc.Packrat.Arithmetic

open Text (Cursor)

namespace Name

def slot : Name → Slot State String
  | sum => sumSlot
  | prod => prodSlot

/-- Counts a run of a rule's body. -/
def count : Name → State → State
  | sum, s => { s with sumRuns := s.sumRuns + 1 }
  | prod, s => { s with prodRuns := s.prodRuns + 1 }

/-- The place of an entry in the order of all entries. -/
def key (name : Name) (offset : Nat) : Nat := 2 * offset + name.rank

theorem key_inj {name name' : Name} {i j : Nat} :
    name.key i = name'.key j ↔ name = name' ∧ i = j := by
  cases name <;> cases name' <;> simp [key, rank] <;> omega

theorem key_mono (name : Name) {i j : Nat} (h : i ≤ j) : name.key i ≤ name.key j := by
  unfold key
  omega

variable {name : Name} {s : State}

theorem at?_record (name name' : Name) (i j : Nat) (e : Entry String) (s : State) :
    name.slot.at? i (name'.slot.record j e s) =
      if name.key i = name'.key j then some e else name.slot.at? i s := by
  cases name <;> cases name' <;>
    simp only [key_inj, slot, Slot.at?, Slot.record, sumSlot, prodSlot, Memo.at?_record,
      reduceCtorEq, true_and, false_and, if_false]

@[simp] theorem cursor_record (name : Name) (i : Nat) (e : Entry String) (s : State) :
    (name.slot.record i e s).cursor = s.cursor := by
  cases name <;> rfl

@[simp] theorem at?_moved (name : Name) (i : Nat) (c : Cursor) (s : State) :
    name.slot.at? i { s with cursor := c } = name.slot.at? i s := by
  cases name <;> rfl

@[simp] theorem at?_count (name name' : Name) (i : Nat) (s : State) :
    name.slot.at? i (name'.count s) = name.slot.at? i s := by
  cases name <;> cases name' <;> rfl

@[simp] theorem cursor_count (name : Name) (s : State) : (name.count s).cursor = s.cursor := by
  cases name <;> rfl

end Name

section Single

variable {α : Type} {s s' : State} {a : α} {p : Char → Bool} {x : Char} {text : List Char}

theorem attempt_of_some {q : Parser State α} (h : q s = (some a, s')) :
    attempt q s = (some a, s') := by
  unfold attempt
  rw [h]

theorem attempt_of_none {q : Parser State α} (h : q s = (none, s')) :
    attempt q s = (none, { s' with cursor := s.cursor }) := by
  unfold attempt
  rw [h]

theorem next_of_match (h : s.cursor.rest = x :: text) (hp : p x = true) :
    next p s = (some x, { s with cursor := s.cursor.past text }) := by
  have hget : (get : Parser State State) s = (some s, s) := rfl
  unfold next
  rw [bind_of_some hget, ← Cursor.advance_one h]
  simp only [h, hp, if_true]
  rfl

theorem next_of_other (h : ∀ x text, s.cursor.rest = x :: text → p x = false) :
    next p s = (none, s) := by
  have hget : (get : Parser State State) s = (some s, s) := rfl
  unfold next
  rw [bind_of_some hget]
  cases hrest : s.cursor.rest with
  | nil => rfl
  | cons x text =>
    simp only [h x text hrest, Bool.false_eq_true, if_false]
    rfl

end Single

/-! ## What the memo holds -/

/-- What a rule should give at a place, and where it should end. -/
def outcome (found : Option (String × List Char)) (c : Cursor) : Option String × Cursor :=
  match found with
  | none => (none, c)
  | some (a, rest) => (some a, c.past rest)

def operandAt (name : Name) (c : Cursor) : Option String × Cursor :=
  outcome (operand name c.rest) c

/-- What the plain parser gives at a place. -/
def plainAt (name : Name) (c : Cursor) : Option String × Cursor := outcome (plain name c.rest) c

/-- An entry has the answer of the plain parser. -/
def Tells (name : Name) (c : Cursor) : Entry String → Prop
  | .running _ => False
  | .settled none _ => plainAt name c = (none, c)
  | .settled (some a) stop => plainAt name c = (some a, stop)

/-- The rule has its answer at an offset. -/
def State.IsSettled (s : State) (name : Name) (offset : Nat) : Prop :=
  ∃ answer stop, name.slot.at? offset s = some (.settled answer stop)

/-- The entries from `n` on are settled and true. -/
def Sound (source : List Char) (n : Nat) (s : State) : Prop :=
  ∀ (name : Name) i e, n ≤ name.key i → name.slot.at? i s = some e →
    Tells name ((Cursor.ofText source).advance i) e

/-- The entries before `n` are left alone. -/
def SameBefore (n : Nat) (s s' : State) : Prop :=
  ∀ (name : Name) i, name.key i < n → name.slot.at? i s' = name.slot.at? i s

/-- A run gives `result`, and keeps the memo sound from `n` on and as it was before. -/
def Runs (source : List Char) (n : Nat) (p : Rule) (s : State)
    (result : Option String × Cursor) : Prop :=
  ∃ s', p s = (result.1, s') ∧ s'.cursor = result.2 ∧ Sound source n s' ∧ SameBefore n s s'

/-- From a place the parser gives `result`, whatever else the memo holds. -/
def Computes (source : List Char) (n : Nat) (p : Rule) (c : Cursor)
    (result : Option String × Cursor) : Prop :=
  ∀ s : State, s.cursor = c → Sound source n s → Runs source n p s result

section Memo

variable {source : List Char} {m n : Nat} {s s' s'' : State} {name : Name} {c stop : Cursor}

theorem Sound.mono (h : Sound source m s) (hn : m ≤ n) : Sound source n s :=
  fun name i e hi => h name i e (hn.trans hi)

theorem SameBefore.refl (n : Nat) (s : State) : SameBefore n s s := fun _ _ _ => rfl

theorem SameBefore.trans (h : SameBefore n s s') (h' : SameBefore n s' s'') :
    SameBefore n s s'' := fun name i hi => (h' name i hi).trans (h name i hi)

theorem SameBefore.mono (h : SameBefore n s s') (hm : m ≤ n) : SameBefore m s s' :=
  fun name i hi => h name i (hi.trans_le hm)

/-- What is sound later and unchanged before is sound where it was. -/
theorem Sound.extend (h : Sound source m s) (h' : Sound source n s') (hsame : SameBefore n s s') :
    Sound source m s' := by
  intro name i e hi he
  rcases Nat.lt_or_ge (name.key i) n with hlt | hge
  · rw [hsame name i hlt] at he
    exact h name i e hi he
  · exact h' name i e hge he

theorem Sound.moved (h : Sound source n s) (c : Cursor) : Sound source n { s with cursor := c } :=
  fun name i e hi he => h name i e hi ((name.at?_moved i c s).symm.trans he)

theorem SameBefore.moved (h : SameBefore n s s') (c : Cursor) :
    SameBefore n s { s' with cursor := c } :=
  fun name i hi => (name.at?_moved i c s').trans (h name i hi)

/-- A run from one place counts as a run from another that was there first. -/
theorem SameBefore.of_moved (h : SameBefore n { s with cursor := c } s') : SameBefore n s s' :=
  ((SameBefore.refl n s).moved c).trans h

theorem Computes.mono {p : Rule} {result : Option String × Cursor}
    (h : Computes source n p c result) (hm : m ≤ n) : Computes source m p c result := by
  intro s hs hsound
  obtain ⟨s', hrun, hcur, hsound', hsame⟩ := h s hs (hsound.mono hm)
  exact ⟨s', hrun, hcur, hsound.extend hsound' hsame, hsame.mono hm⟩

end Memo

section Atom

variable {source : List Char} {sum : Rule} {s s' : State} {c : Cursor} {x : Char}
  {text rest : List Char} {inner : String}

theorem atom_of_digit (h : s.cursor.rest = x :: text) (hx : x.isDigit) :
    atom sum s = (some x.toString, { s with cursor := s.cursor.past text }) :=
  orElse_of_some ((bind_of_some (next_of_match h hx)).trans rfl)

theorem atom_of_other
    (h : ∀ x text, s.cursor.rest = x :: text → x.isDigit = false ∧ (x == '(') = false) :
    atom sum s = (none, s) := by
  have hdigit : next Char.isDigit s = (none, s) := next_of_other fun x text hx => (h x text hx).1
  have hopen : next (· == '(') s = (none, s) := next_of_other fun x text hx => (h x text hx).2
  exact (orElse_of_none (bind_of_none hdigit)).trans (attempt_of_none (bind_of_none hopen))

/-- Behind an open bracket all depends on the sum. -/
theorem atom_of_bracket (sum : Rule) (h : s.cursor.rest = '(' :: text) : atom sum s = attempt (do
    let inner ← (fun s => sum { s with cursor := s.cursor.past text} : Rule)
    let _ ← next (· == ')')
    return s!"[{inner}]") s := by
  have hdigit : next Char.isDigit s = (none, s) := next_of_other fun x text hx => by
    rw [h] at hx
    cases hx
    rfl
  have hopen := next_of_match (p := (· == '(')) h rfl
  refine (orElse_of_none (bind_of_none hdigit)).trans ?_
  unfold attempt
  rw [bind_of_some hopen]
  rfl

/-- A sum in brackets, if the sum from behind the bracket runs as it should. -/
theorem atom_runs_bracket {n : Nat} (h : s.cursor.rest = '(' :: text)
    (hsum : Runs source n sum { s with cursor := s.cursor.past text }
      (plainAt .sum (s.cursor.past text))) :
    Runs source n (atom sum) s (operandAt .prod s.cursor) := by
  obtain ⟨s₁, hrun, hcur, hsound, hsame⟩ := hsum
  have hatom := atom_of_bracket sum h
  -- every failure behind the bracket leads back to it
  have hfail (hnone : operand .prod ('(' :: text) = none)
      (hback : atom sum s = (none, { s₁ with cursor := s.cursor })) :
      Runs source n (atom sum) s (operandAt .prod s.cursor) := by
    rw [operandAt, h, hnone]
    exact ⟨_, hback, rfl, hsound.moved _, hsame.of_moved.moved _⟩
  unfold plainAt at hrun hcur
  rw [Cursor.rest_past] at hrun hcur
  cases hplain : plain .sum text with
  | none =>
    rw [hplain] at hrun
    exact hfail (operand_open fun _ _ h' => by simp [hplain] at h')
      (hatom.trans (attempt_of_none (bind_of_none hrun)))
  | some found =>
    obtain ⟨a, behind⟩ := found
    rw [hplain] at hrun hcur
    by_cases hclose : ∃ rest, behind = ')' :: rest
    · obtain ⟨rest, rfl⟩ := hclose
      have hrest : s₁.cursor.rest = ')' :: rest := by rw [hcur]; rfl
      have hnext := next_of_match (p := (· == ')')) hrest rfl
      have htext : text <:+ s.cursor.rest := h ▸ List.suffix_cons _ _
      have hbehind := (plain_behind hplain).1
      have hcur₁ : s₁.cursor.past rest = s.cursor.past rest := by
        rw [hcur]
        show ((s.cursor.past text).past _).past rest = _
        rw [Cursor.past_past hbehind (List.suffix_cons _ _),
          Cursor.past_past htext ((List.suffix_cons _ _).trans hbehind)]
      rw [operandAt, h, operand_closed hplain]
      refine ⟨_, hatom.trans (attempt_of_some ((bind_of_some hrun).trans
        ((bind_of_some hnext).trans rfl))), hcur₁, hsound.moved _, (hsame.of_moved).moved _⟩
    · have hnext : next (· == ')') s₁ = (none, s₁) := by
        refine next_of_other fun x rest hx => ?_
        rw [hcur] at hx
        have hx' : x ≠ ')' := fun h' => hclose ⟨rest, h' ▸ hx⟩
        simpa using hx'
      refine hfail (operand_open fun a' rest' h' => hclose ⟨rest', ?_⟩)
        (hatom.trans (attempt_of_none ((bind_of_some hrun).trans (bind_of_none hnext))))
      rw [hplain] at h'
      exact (Prod.mk.inj (Option.some.inj h')).2

theorem atom_computes (hc : c.In source)
    (hsum : ∀ c' : Cursor, c'.In source → c'.rest.length < c.rest.length →
      Computes source (Name.sum.key c'.offset) sum c' (plainAt .sum c')) :
    Computes source (Name.prod.key c.offset + 1) (atom sum) c (operandAt .prod c) := by
  intro s hs hsound
  subst hs
  cases hrest : s.cursor.rest with
  | nil =>
    rw [operandAt, hrest, operand_prod_nil]
    exact ⟨s, atom_of_other (by simp [hrest]), rfl, hsound, .refl _ _⟩
  | cons x text =>
    by_cases hdigit : x.isDigit
    · rw [operandAt, hrest, operand_digit hdigit]
      exact ⟨_, atom_of_digit hrest hdigit, rfl, hsound.moved _, (SameBefore.refl _ _).moved _⟩
    by_cases hopen : x = '('
    · subst hopen
      have htext : text <:+ s.cursor.rest := hrest ▸ List.suffix_cons _ _
      have hkey : Name.sum.key (s.cursor.past text).offset = Name.prod.key s.cursor.offset + 1 := by
        rw [← Cursor.advance_one hrest]
        simp only [Name.key, Name.rank, Cursor.offset_advance]
        omega
      have hrun := hsum (s.cursor.past text) (hc.past htext) (by rw [hrest]; simp)
        { s with cursor := s.cursor.past text } rfl (hkey ▸ hsound.moved _)
      rw [hkey] at hrun
      exact atom_runs_bracket hrest hrun
    · rw [operandAt, hrest, operand_other hdigit hopen]
      refine ⟨s, atom_of_other fun x' text' h => ?_, rfl, hsound, .refl _ _⟩
      rw [hrest] at h
      cases h
      exact ⟨by simpa using hdigit, by simpa using hopen⟩

end Atom

/-! ## Rules -/

/-- What a rule runs, with `p` for its operands. -/
def ruleBody (name : Name) (p : Rule) : Rule := do
  modify name.count
  chain name.slot name.operator p

section Chain

variable {source : List Char} {name : Name} {p : Rule} {s s' : State} {c : Cursor} {n : Nat}
  {text rest : List Char} {left right : String} {e : Entry String}

theorem Sound.count (h : Sound source n s) (name : Name) : Sound source n (name.count s) :=
  fun name' i e hi he => h name' i e hi ((name'.at?_count name i s).symm.trans he)

theorem SameBefore.count (n : Nat) (name : Name) (s : State) : SameBefore n s (name.count s) :=
  fun name' i _ => name'.at?_count name i s

/-- What lies behind an entry does not depend on it. -/
theorem Sound.record_before {i : Nat} (h : Sound source n s) (hi : name.key i < n) :
    Sound source n (name.slot.record i e s) := by
  intro name' j e' hj he
  rw [Name.at?_record, if_neg (by omega)] at he
  exact h name' j e' hj he

theorem SameBefore.record {i : Nat} (n : Nat) (hi : n ≤ name.key i) (e : Entry String)
    (s : State) : SameBefore n s (name.slot.record i e s) := by
  intro name' j hj
  rw [Name.at?_record, if_neg (by omega)]

/-- An entry that gets its answer makes the memo sound from there on. -/
theorem Sound.settle (h : Sound source (name.key c.offset + 1) s) (hc : c.In source)
    (hentry : name.slot.at? c.offset s = some e) (he : Tells name c e) :
    Sound source (name.key c.offset) s := by
  intro name' i e' hi he'
  by_cases hkey : name.key c.offset = name'.key i
  · obtain ⟨rfl, rfl⟩ := Name.key_inj.mp hkey
    rw [hentry] at he'
    cases he'
    rwa [hc]
  · exact h name' i e' (by omega) he'

/-- A rule that asks for itself while it has no answer goes on with an operand. -/
theorem chain_running (name : Name) (p : Rule) {r : Bool}
    (h : name.slot.at? s.cursor.offset s = some (.running r)) :
    chain name.slot name.operator p s = p (name.slot.record s.cursor.offset (.running true) s) := by
  have hrun : remembered name.slot s = (none, name.slot.record s.cursor.offset (.running true) s) :=
    remembered_running rfl h
  refine (orElse_of_none (attempt_of_none (bind_of_none hrun))).trans ?_
  congr 1
  cases name <;> rfl

section Settled

variable (hp : ∀ c' : Cursor, c'.In source → c'.rest.length ≤ c.rest.length →
    Computes source (name.key c'.offset + 1) p c' (operandAt name c'))
  (hc : c.In source) (hsound : Sound source (name.key c.offset + 1) s) (hrest : rest <:+ c.rest)

include hp hc hsound hrest

/-- An operand is read from any place behind the rule's. -/
theorem operand_runs (hs : s.cursor = c.past rest) :
    Runs source (name.key c.offset + 1) p s (operandAt name (c.past rest)) :=
  (hp _ (hc.past hrest) hrest.length_le).mono
    (Nat.succ_le_succ (name.key_mono Cursor.offset_le_past)) s hs hsound

variable (hs : s.cursor = c)
  (hentry : name.slot.at? c.offset s = some (.settled (some left) (c.past rest)))

include hs hentry

/-- A rule with an answer adds an operator and an operand to it. -/
theorem chain_more (htext : rest = name.operator :: text) {behind : List Char}
    (hoperand : operand name text = some (right, behind)) :
    Runs source (name.key c.offset + 1) (chain name.slot name.operator p) s
      (some s!"({left}{name.operator}{right})", c.past behind) := by
  have hleft : remembered name.slot s = (some left, { s with cursor := c.past rest }) :=
    remembered_settled hs hentry
  have hnext := next_of_match (p := (· == name.operator)) (s := { s with cursor := c.past rest })
    htext (beq_self_eq_true _)
  have hsuffix : text <:+ c.rest := (htext ▸ List.suffix_cons _ _).trans hrest
  rw [show (c.past rest).past text = c.past text from
    Cursor.past_past hrest (htext ▸ List.suffix_cons _ _)] at hnext
  obtain ⟨s', hrun, hcur, hsound', hsame⟩ :=
    operand_runs hp hc (hsound.moved (c.past text)) hsuffix rfl
  rw [operandAt, Cursor.rest_past, hoperand] at hrun hcur
  have hbehind := (operand_behind hoperand).1
  refine ⟨s', orElse_of_some (attempt_of_some ((bind_of_some hleft).trans
    ((bind_of_some hnext).trans ((bind_of_some hrun).trans rfl)))), ?_, hsound', hsame.of_moved⟩
  rw [hcur]
  exact Cursor.past_past hsuffix hbehind

/-- Where there is no operator with an operand, it reads its first operand once more. -/
theorem chain_last (hlast : ∀ text, rest = name.operator :: text → operand name text = none) :
    Runs source (name.key c.offset + 1) (chain name.slot name.operator p) s
      (operandAt name c) := by
  have hleft : remembered name.slot s = (some left, { s with cursor := c.past rest }) :=
    remembered_settled hs hentry
  have hfails : ∃ s₁, (do
      let left ← remembered name.slot
      let _ ← next (· == name.operator)
      let right ← p
      return s!"({left}{name.operator}{right})") s = (none, s₁) ∧
      Sound source (name.key c.offset + 1) s₁ ∧ SameBefore (name.key c.offset + 1) s s₁ := by
    by_cases htext : ∃ text, rest = name.operator :: text
    · obtain ⟨text, htext⟩ := htext
      have hnext := next_of_match (p := (· == name.operator))
        (s := { s with cursor := c.past rest }) htext (beq_self_eq_true _)
      have hsuffix : text <:+ c.rest := (htext ▸ List.suffix_cons _ _).trans hrest
      rw [show (c.past rest).past text = c.past text from
        Cursor.past_past hrest (htext ▸ List.suffix_cons _ _)] at hnext
      obtain ⟨s', hrun, -, hsound', hsame⟩ :=
        operand_runs hp hc (hsound.moved (c.past text)) hsuffix rfl
      rw [operandAt, Cursor.rest_past, hlast text htext] at hrun
      exact ⟨s', (bind_of_some hleft).trans ((bind_of_some hnext).trans (bind_of_none hrun)),
        hsound', hsame.of_moved⟩
    · have hnext : next (· == name.operator) { s with cursor := c.past rest } =
          (none, { s with cursor := c.past rest }) := by
        refine next_of_other fun x text hx => ?_
        have hx' : x ≠ name.operator := fun h => htext ⟨text, h ▸ hx⟩
        simpa using hx'
      exact ⟨_, (bind_of_some hleft).trans (bind_of_none hnext), hsound.moved _,
        (SameBefore.refl _ _).moved _⟩
  obtain ⟨s₁, hfails, hsound₁, hsame₁⟩ := hfails
  obtain ⟨s', hrun, hcur, hsound', hsame⟩ := hp c hc (Nat.le_refl _) { s₁ with cursor := c } rfl
    (hsound₁.moved _)
  refine ⟨s', (orElse_of_none (attempt_of_none hfails)).trans ?_, hcur, hsound',
    hsame₁.trans hsame.of_moved⟩
  rw [hs]
  exact hrun

end Settled

/-- Counting the run of a body changes nothing else. -/
theorem Runs.counted {result : Option String × Cursor}
    (h : Runs source n (chain name.slot name.operator p) (name.count s) result) :
    Runs source n (ruleBody name p) s result := by
  obtain ⟨s', hrun, hcur, hsound, hsame⟩ := h
  exact ⟨s', hrun, hcur, hsound, (SameBefore.count n name s).trans hsame⟩

/-- The first round has no answer to go on from, so it reads an operand. -/
theorem ruleBody_first (p : Rule) {s : State} (hs : s.cursor = c)
    (hsound : Sound source (name.key c.offset) s) :
    ∃ t, ruleBody name p (name.slot.record c.offset (.running false) s) = p t ∧ t.cursor = c ∧
      name.slot.at? c.offset t = some (.running true) ∧ Sound source (name.key c.offset + 1) t ∧
      SameBefore (name.key c.offset) s t := by
  have hkey := Nat.lt_succ_self (name.key c.offset)
  have hcur : (name.count (name.slot.record c.offset (.running false) s)).cursor = c := by
    simpa using hs
  have hrun := chain_running name p (r := false)
    (s := name.count (name.slot.record c.offset (.running false) s))
    (by rw [hcur, Name.at?_count, Name.at?_record, if_pos rfl])
  rw [hcur] at hrun
  refine ⟨_, hrun, by rw [Name.cursor_record, hcur], by rw [Name.at?_record, if_pos rfl],
    (((hsound.mono hkey.le).record_before hkey).count name).record_before hkey, ?_⟩
  exact ((SameBefore.record _ (Nat.le_refl _) _ s).trans (.count _ name _)).trans
    (.record _ (Nat.le_refl _) _ _)

end Chain

/-! ## Growing -/

section Grow

variable {source : List Char} {name : Name} {p : Rule} {c : Cursor}
  (hp : ∀ c' : Cursor, c'.In source → c'.rest.length ≤ c.rest.length →
    Computes source (name.key c'.offset + 1) p c' (operandAt name c'))
  (hc : c.In source)

include hp hc

/-- Growing reads the operators that follow the answer so far. -/
theorem grow_chained {first : String} {seed : List Char}
    (hseed : operand name c.rest = some (first, seed)) {n : Nat} {left : String}
    {rest : List Char} (hrest : rest <:+ seed) (hn : rest.length < n) {s : State}
    (hsound : Sound source (name.key c.offset + 1) s)
    (hentry : name.slot.at? c.offset s = some (.settled (some left) (c.past rest))) :
    ∃ s', grow name.slot (ruleBody name p) c n s = s' ∧
      name.slot.at? c.offset s' = some (.settled (some (chained name left rest).1)
        (c.past (chained name left rest).2)) ∧
      Sound source (name.key c.offset + 1) s' ∧ SameBefore (name.key c.offset) s s' := by
  induction n generalizing left rest s with
  | zero => exact absurd hn (Nat.not_lt_zero _)
  | succ n ih =>
    have hbehind := hrest.trans (operand_behind hseed).1
    have hkey := Nat.lt_succ_self (name.key c.offset)
    have hentry₀ : name.slot.at? c.offset (name.count { s with cursor := c }) =
        some (.settled (some left) (c.past rest)) := by simpa using hentry
    have hcur₀ : (name.count { s with cursor := c }).cursor = c := name.cursor_count _
    rcases chained_step name left rest with ⟨text, right, behind, htext, hoperand, hchained⟩ |
      ⟨hlast, hchained⟩
    · obtain ⟨s₁, hrun, hcur, hsound₁, hsame⟩ := (chain_more hp hc ((hsound.moved c).count name)
        hbehind hcur₀ hentry₀ htext hoperand).counted
      have hcur : HasCursor.cursor s₁ = c.past behind := hcur
      have hentry₁ : ∀ answer, name.slot.at? c.offset (name.slot.record c.offset
          (.settled (some answer) (HasCursor.cursor s₁)) s₁) =
            some (.settled (some answer) (c.past behind)) := fun answer => by
        rw [Name.at?_record, if_pos rfl, hcur]
      have hshorter : behind.length < rest.length := by
        rw [htext]
        exact (operand_behind hoperand).2.trans (Nat.lt_succ_self _)
      have hgrow := grow_further (n := n) hrun ((hsame name c.offset hkey).trans
        ((name.at?_moved _ c s).trans hentry)) (hcur ▸ Cursor.offset_past_lt hbehind hshorter)
      have hseed' : behind <:+ seed :=
        (operand_behind hoperand).1.trans ((htext ▸ List.suffix_cons _ _).trans hrest)
      obtain ⟨s', hgrow', hentry', hsound', hsame'⟩ := ih hseed' (by omega)
        (hsound₁.record_before hkey) (hentry₁ _)
      refine ⟨s', hgrow.trans hgrow', hchained ▸ hentry', hsound', ?_⟩
      exact ((hsame.of_moved.mono hkey.le).trans (.record _ (Nat.le_refl _) _ _)).trans hsame'
    · obtain ⟨s₁, hrun, hcur, hsound₁, hsame⟩ := (chain_last hp hc ((hsound.moved c).count name)
        hbehind hcur₀ hentry₀ hlast).counted
      rw [operandAt, hseed] at hrun hcur
      have hcur : HasCursor.cursor s₁ = c.past seed := hcur
      have hentry₁ := (hsame name c.offset hkey).trans ((name.at?_moved _ c s).trans hentry)
      refine ⟨s₁, grow_done hrun hentry₁ ?_, hchained ▸ hentry₁, hsound₁,
        hsame.of_moved.mono hkey.le⟩
      rw [hcur]
      exact Cursor.offset_past_le hrest.length_le

/-- A rule without an entry is evaluated and grown. -/
theorem evaluate_runs {s : State} (hs : s.cursor = c) (hsound : Sound source (name.key c.offset) s) :
    ∃ s', evaluate name.slot (ruleBody name p) s = ((plainAt name c).1, s') ∧
      s'.cursor = (plainAt name c).2 ∧ Sound source (name.key c.offset) s' ∧
      SameBefore (name.key c.offset) s s' ∧ s'.IsSettled name c.offset := by
  have hkey := Nat.lt_succ_self (name.key c.offset)
  obtain ⟨t, hbody, hcur, hrunning, hsound₀, hsame₀⟩ := ruleBody_first p hs hsound
  obtain ⟨s₁, hrun, hcur₁, hsound₁, hsame₁⟩ := hp c hc (Nat.le_refl _) t hcur hsound₀
  have hrunning₁ := (hsame₁ name c.offset hkey).trans hrunning
  have hsame := hsame₀.trans (hsame₁.mono hkey.le)
  cases hoperand : operand name c.rest with
  | none =>
    have hplain : plainAt name c = (none, c) := by
      rw [plainAt, plain_eq, hoperand]
      rfl
    rw [operandAt, hoperand] at hrun
    have hentry : name.slot.at? c.offset (name.slot.record c.offset
        (.settled none (HasCursor.cursor s₁)) s₁) = some (.settled none (HasCursor.cursor s₁)) := by
      rw [Name.at?_record, if_pos rfl]
    rw [hplain]
    refine ⟨_, evaluate_of_none hs (hbody.trans hrun), rfl, Sound.moved ?_ _,
      (hsame.trans (.record _ (Nat.le_refl _) _ _)).moved _, _, _,
      (name.at?_moved _ _ _).trans hentry⟩
    exact (hsound₁.record_before hkey).settle hc hentry hplain
  | some found =>
    obtain ⟨first, seed⟩ := found
    have hplain : plainAt name c =
        (some (chained name first seed).1, c.past (chained name first seed).2) := by
      rw [plainAt, plain_eq, hoperand]
      rfl
    rw [operandAt, hoperand] at hrun hcur₁
    have hcur₁ : HasCursor.cursor s₁ = c.past seed := hcur₁
    have hseed := (operand_behind hoperand).1
    obtain ⟨s₂, hgrow, hentry₂, hsound₂, hsame₂⟩ := grow_chained hp hc hoperand
      (List.suffix_refl seed) (Nat.lt_succ_of_le hseed.length_le)
      (s := name.slot.record c.offset (.settled (some first) (HasCursor.cursor s₁)) s₁)
      (hsound₁.record_before hkey) (by rw [Name.at?_record, if_pos rfl, hcur₁])
    have hentry := (name.at?_moved c.offset c s₂).trans hentry₂
    rw [hplain]
    refine ⟨_, evaluate_of_some rfl hs (hbody.trans hrun) hrunning₁ hgrow hentry, rfl, ?_, ?_, _, _,
      (name.at?_moved _ _ _).trans hentry⟩
    · exact ((hsound₂.settle hc hentry₂ hplain).moved c).moved _
    · exact (((hsame.trans (.record _ (Nat.le_refl _) _ _)).trans hsame₂).moved c).moved _

/-- A rule run through the memo gives what the plain parser gives, and has its answer then. -/
theorem apply_runs {s : State} (hs : s.cursor = c) (hsound : Sound source (name.key c.offset) s) :
    ∃ s', apply name.slot (ruleBody name p) s = ((plainAt name c).1, s') ∧
      s'.cursor = (plainAt name c).2 ∧ Sound source (name.key c.offset) s' ∧
      SameBefore (name.key c.offset) s s' ∧ s'.IsSettled name c.offset := by
  cases hentry : name.slot.at? c.offset s with
  | none =>
    obtain ⟨s', hrun, h⟩ := evaluate_runs hp hc hs hsound
    exact ⟨s', (apply_of_none hs hentry).trans hrun, h⟩
  | some e =>
    have htells : Tells name c e := by
      have := hsound name c.offset e (Nat.le_refl _) hentry
      rwa [hc] at this
    rcases e with recursed | ⟨_ | a, stop⟩
    · exact htells.elim
    · rw [show plainAt name c = (none, c) from htells]
      exact ⟨s, apply_of_failed hs hentry, hs, hsound, .refl _ _, _, _, hentry⟩
    · rw [show plainAt name c = (some a, stop) from htells]
      exact ⟨_, apply_of_settled hs hentry, rfl, hsound.moved _, (SameBefore.refl _ _).moved _, _,
        _, (name.at?_moved _ _ _).trans hentry⟩

theorem apply_computes :
    Computes source (name.key c.offset) (apply name.slot (ruleBody name p)) c (plainAt name c) := by
  intro s hs hsound
  obtain ⟨s', hrun, hcur, hsound', hsame, -⟩ := apply_runs hp hc hs hsound
  exact ⟨s', hrun, hcur, hsound', hsame⟩

end Grow

/-- The operands of a rule, with brackets nested less than `depth` deep. -/
def operandRule (depth : Nat) : Name → Rule
  | .sum => (rules (depth + 1)).2
  | .prod => atom (rules depth).1

section Rules

variable {source : List Char} {depth : Nat} {c : Cursor}

theorem operandRule_step (hsum : ∀ c : Cursor, c.In source → c.rest.length < depth →
    Computes source (Name.sum.key c.offset) (rules depth).1 c (plainAt .sum c)) (hc : c.In source)
    (hdepth : c.rest.length ≤ depth) (name : Name) :
    Computes source (name.key c.offset + 1) (operandRule depth name) c (operandAt name c) := by
  have hatom : ∀ c : Cursor, c.In source → c.rest.length ≤ depth → Computes source
      (Name.prod.key c.offset + 1) (operandRule depth .prod) c (operandAt .prod c) :=
    fun c hc hle => atom_computes hc fun c' hc' hlt => hsum c' hc' (by omega)
  cases name with
  | prod => exact hatom c hc hdepth
  | sum =>
    have hkey : Name.sum.key c.offset + 1 = Name.prod.key c.offset := rfl
    rw [hkey, operandAt, operand_sum]
    exact apply_computes (fun c' hc' hle => hatom c' hc' (hle.trans hdepth)) hc

theorem operandRule_computes (hc : c.In source) (hdepth : c.rest.length ≤ depth) (name : Name) :
    Computes source (name.key c.offset + 1) (operandRule depth name) c (operandAt name c) := by
  induction depth generalizing c name with
  | zero => exact operandRule_step (fun _ _ h => absurd h (Nat.not_lt_zero _)) hc hdepth name
  | succ depth ih =>
    refine operandRule_step (fun c' hc' hlt => ?_) hc hdepth name
    exact apply_computes (fun c₁ hc₁ hle => ih hc₁ (by omega) .sum) hc'

end Rules

/-! ## Steps on one memo -/

/-- What may be done with a memo. -/
inductive Step where
  | apply (name : Name) (offset : Nat)
  | clear

def Name.rule : Name → Rule
  | .sum => Arithmetic.sum
  | .prod => Arithmetic.prod

def Step.run (source : List Char) : Step → State → Option String × State
  | .apply name offset, s => name.rule (s.moveTo source offset)
  | .clear, s => (none, s.clear)

/-- The answer of a step and the place where it ends. -/
def Step.result (source : List Char) (step : Step) (s : State) : Option String × Cursor :=
  ((step.run source s).1, (step.run source s).2.cursor)

/-- The state after steps, from an empty memo. -/
def after (source : List Char) (steps : List Step) : State :=
  steps.foldl (fun s step => (step.run source s).2) { cursor := .ofText source }

section Steps

variable {source : List Char} {s : State} {name : Name} {offset : Nat}

theorem Name.rule_eq (name : Name) (s : State) : name.rule s =
    apply name.slot (ruleBody name (operandRule s.cursor.rest.length name)) s := by
  cases name <;> rfl

/-- A rule that has its answer only moves. -/
theorem rule_of_settled (h : s.IsSettled name s.cursor.offset) :
    ∃ answer stop, name.rule s = (answer, { s with cursor := stop }) := by
  obtain ⟨_ | a, stop, hentry⟩ := h
  · exact ⟨none, s.cursor, (name.rule_eq s).trans (apply_of_failed rfl hentry)⟩
  · exact ⟨some a, stop, (name.rule_eq s).trans (apply_of_settled rfl hentry)⟩

/-- What a step gives with a sound memo, which it keeps sound. -/
theorem apply_step (h : Sound source 0 s) (name : Name) (offset : Nat) :
    let start := (Cursor.ofText source).advance offset
    ∃ s', (Step.apply name offset).run source s = ((plainAt name start).1, s') ∧
      s'.cursor = (plainAt name start).2 ∧ Sound source 0 s' ∧ s'.IsSettled name offset := by
  intro start
  have hstart : start.offset = offset := Nat.zero_add offset
  obtain ⟨s', hrun, hcur, hsound, hsame, hsettled⟩ := apply_runs
    (fun c hc hle => operandRule_computes hc hle name) (Cursor.In.ofText source offset)
    (s := s.moveTo source offset) rfl ((h.mono (Nat.zero_le _)).moved _)
  refine ⟨s', (name.rule_eq _).trans hrun, hcur, (h.moved start).extend hsound hsame, ?_⟩
  exact hstart ▸ hsettled

theorem Sound.clear : Sound source 0 s.clear := by
  intro name i e _ he
  cases name <;> cases he

theorem Sound.step (h : Sound source 0 s) (step : Step) : Sound source 0 (step.run source s).2 := by
  cases step with
  | clear => exact Sound.clear
  | apply name offset =>
    obtain ⟨s', hrun, -, hsound, -⟩ := apply_step h name offset
    rw [hrun]
    exact hsound

theorem sound_after (source : List Char) (steps : List Step) :
    Sound source 0 (after source steps) := by
  suffices h : ∀ s, Sound source 0 s →
      Sound source 0 (steps.foldl (fun s step => (step.run source s).2) s) from
    h _ (Sound.clear (s := { cursor := .ofText source }))
  induction steps with
  | nil => exact fun s h => h
  | cons step steps ih => exact fun s h => ih _ (h.step step)

/-- Whatever ran before, a step gives what it gives on an empty memo, which is what the plain parser
gives. A rule that was applied is settled, and one that is settled runs no body. -/
theorem step_plain (source : List Char) (steps : List Step) :
    let s := after source steps
    (∀ step : Step, step.result source s = step.result source s.clear) ∧
      ∀ name offset, let step := Step.apply name offset
        step.result source s = plainAt name ((Cursor.ofText source).advance offset) ∧
        (step.run source s).2.IsSettled name offset ∧
        (s.IsSettled name offset → (step.run source s).2.sumRuns = s.sumRuns ∧
          (step.run source s).2.prodRuns = s.prodRuns) := by
  intro s
  have hsound := sound_after source steps
  have hresult : ∀ t, Sound source 0 t → ∀ name offset, (Step.apply name offset).result source t =
      plainAt name ((Cursor.ofText source).advance offset) := by
    intro t ht name offset
    obtain ⟨t', hrun, hcur, -⟩ := apply_step ht name offset
    rw [Step.result, hrun]
    exact Prod.ext rfl hcur
  refine ⟨fun step => ?_, fun name offset => ⟨hresult s hsound name offset, ?_, fun h => ?_⟩⟩
  · cases step with
    | clear => rfl
    | apply name offset => rw [hresult s hsound, hresult _ Sound.clear]
  · obtain ⟨s', hrun, -, -, hsettled⟩ := apply_step hsound name offset
    rw [hrun]
    exact hsettled
  · have hmoved :
        (s.moveTo source offset).IsSettled name (s.moveTo source offset).cursor.offset := by
      obtain ⟨answer, stop, hentry⟩ := h
      refine ⟨answer, stop, (name.at?_moved _ _ s).trans ?_⟩
      rw [← hentry]
      exact congrArg (fun i => name.slot.at? i s) (Nat.zero_add offset)
    obtain ⟨answer, stop, hrun⟩ := rule_of_settled hmoved
    show (name.rule _).2.sumRuns = _ ∧ (name.rule _).2.prodRuns = _
    rw [hrun]
    exact ⟨rfl, rfl⟩

/-- A sum takes three runs of its body, and none when it is asked for again. -/
theorem step_plain_again :
    let source := "1+2*3)".toList
    let s := after source [.apply .sum 0]
    s.IsSettled .sum 0 ∧ s.sumRuns = 3 ∧
      ((Step.apply .sum 0).run source s).1 = some "(1+(2*3))" ∧
      ((Step.apply .sum 0).run source s).2.sumRuns = 3 := by
  intro source s
  have hsettled : s.IsSettled .sum 0 := ((step_plain source []).2 .sum 0).2.1
  have hruns : s.sumRuns = 3 := by decide +kernel
  refine ⟨hsettled, hruns, by decide +kernel, ?_⟩
  rw [← hruns]
  exact (((step_plain source [.apply .sum 0]).2 .sum 0).2.2 hsettled).1

end Steps

end ThriftRpc.Packrat.Arithmetic
