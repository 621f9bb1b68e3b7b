/-!
# Tables in order of arrival

An association list without repeated keys. A key keeps the place where it first arrived; writing
to it again changes its value only.
-/

namespace ThriftRpc

abbrev Table (κ α : Type) := List (κ × α)

namespace Table

variable {κ α : Type} [DecidableEq κ]

def find? (k : κ) : Table κ α → Option α
  | [] => none
  | (k', v) :: t => if k' = k then some v else find? k t

def contains (k : κ) (t : Table κ α) : Bool := (find? k t).isSome

def insert (k : κ) (v : α) : Table κ α → Table κ α
  | [] => [(k, v)]
  | (k', w) :: t => if k' = k then (k', v) :: t else (k', w) :: insert k v t

def erase (k : κ) : Table κ α → Table κ α
  | [] => []
  | (k', w) :: t => if k' = k then t else (k', w) :: erase k t

/-- Writes the pairs one after the other into an empty table. -/
def ofList (pairs : List (κ × α)) : Table κ α := pairs.foldl (fun t p => insert p.1 p.2 t) []

theorem find?_insert (k k' : κ) (v : α) (t : Table κ α) :
    find? k' (insert k v t) = if k = k' then some v else find? k' t := by
  induction t with
  | nil => rfl
  | cons p t ih =>
    obtain ⟨l, w⟩ := p
    by_cases hl : l = k
    · subst hl; by_cases h : l = k' <;> simp [insert, find?, h]
    · by_cases hk : l = k'
      · subst hk; simp [insert, find?, hl, Ne.symm hl]
      · simp [insert, find?, hl, hk, ih]

/-- A present key keeps its place, a new one goes to the end. -/
theorem keys_insert (k : κ) (v : α) (t : Table κ α) :
    (insert k v t).map Prod.fst =
      if k ∈ t.map Prod.fst then t.map Prod.fst else t.map Prod.fst ++ [k] := by
  induction t with
  | nil => simp [insert]
  | cons p t ih =>
    obtain ⟨l, w⟩ := p
    by_cases hl : l = k
    · simp [insert, hl]
    · simp only [insert, hl, if_false, List.map_cons, ih, List.mem_cons, Ne.symm hl, false_or]
      split <;> rfl

end Table

end ThriftRpc
