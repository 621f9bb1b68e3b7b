import ThriftRpc.Text.Cursor

/-!
# Memoized rules with left recursion

A rule is evaluated at most once per position; its answer and its end are kept in a memo. A rule
that asks for itself at the position where it began gets no answer at first, so that it settles
on what its other alternatives give, the seed. The rule is then run again from the same position,
each time seeing its answer so far, until it no longer gets further.
-/

namespace ThriftRpc.Packrat

open Text (Cursor)

/-- What is known of a rule at a position. -/
inductive Entry (α : Type) where
  /-- The rule is being evaluated, and has or has not asked for itself. -/
  | running (recursed : Bool)
  | settled (answer : Option α) (stop : Cursor)

/-- The entries of one rule by offset, the newest first. -/
abbrev Memo (α : Type) := List (Nat × Entry α)

namespace Memo

def at? {α : Type} (m : Memo α) (offset : Nat) : Option (Entry α) :=
  (m.find? (·.1 = offset)).map Prod.snd

def record {α : Type} (m : Memo α) (offset : Nat) (e : Entry α) : Memo α := (offset, e) :: m

theorem at?_record {α : Type} (m : Memo α) (i j : Nat) (e : Entry α) :
    (m.record i e).at? j = if j = i then some e else m.at? j := by
  by_cases h : i = j
  · simp [at?, record, h]
  · simp [at?, record, h, Ne.symm h]

end Memo

/-- A state with a position in a text. -/
class HasCursor (σ : Type) where
  cursor : σ → Cursor
  moveTo : Cursor → σ → σ

/-- A place in the state for the memo of a rule. -/
structure Slot (σ α : Type) where
  get : σ → Memo α
  set : Memo α → σ → σ

variable {σ α : Type} [HasCursor σ]

open HasCursor (cursor moveTo)

def Slot.at? (slot : Slot σ α) (offset : Nat) (s : σ) : Option (Entry α) :=
  (slot.get s).at? offset

def Slot.record (slot : Slot σ α) (offset : Nat) (e : Entry α) (s : σ) : σ :=
  slot.set ((slot.get s).record offset e) s

/-- A parser that fails or answers, and keeps its state either way. -/
abbrev Parser (σ α : Type) := OptionT (StateM σ) α

/-- Answers a rule from its memo, if it has an entry at the current position. -/
def remembered? (slot : Slot σ α) (s : σ) : Option (Option α × σ) :=
  let start := cursor s
  match slot.at? start.offset s with
  | none => none
  | some (.running _) => some (none, slot.record start.offset (.running true) s)
  | some (.settled none _) => some (none, s)
  | some (.settled (some a) stop) => some (some a, moveTo stop s)

/-- What a rule's own body gets when it asks for the rule: the memo's answer, and nothing if there
is none. -/
def remembered (slot : Slot σ α) : Parser σ α := fun s => (remembered? slot s).getD (none, s)

/-- Runs the body again from `start` as long as it answers and gets further than before. -/
def grow (slot : Slot σ α) (body : Parser σ α) (start : Cursor) (fuel : Nat) (s : σ) : σ :=
  match fuel with
  | 0 => s
  | fuel + 1 =>
    match body (moveTo start s) with
    | (none, s) => s
    | (some a, s) =>
      match slot.at? start.offset s with
      | some (.settled _ stop) =>
        if stop.offset < (cursor s).offset then
          grow slot body start fuel (slot.record start.offset (.settled (some a) (cursor s)) s)
        else s
      | _ => s

/-- Evaluates a rule without an entry and grows its answer. Each round gets further, so the text
ahead bounds their number. -/
def evaluate (slot : Slot σ α) (body : Parser σ α) : Parser σ α := fun s =>
  let start := cursor s
  let (answer, s) := body (slot.record start.offset (.running false) s)
  let entry := slot.at? start.offset s
  let s := slot.record start.offset (.settled answer (cursor s)) s
  match answer, entry with
  | none, _ => (none, moveTo start s)
  | some _, some (.running true) =>
    let s := grow slot body start (start.rest.length + 1) s
    (remembered? slot (moveTo start s)).getD (none, s)
  | some a, _ => (some a, s)

/-- Applies a rule at the current position. -/
def apply (slot : Slot σ α) (body : Parser σ α) : Parser σ α := fun s =>
  match remembered? slot s with
  | some result => result
  | none => evaluate slot body s

end ThriftRpc.Packrat
