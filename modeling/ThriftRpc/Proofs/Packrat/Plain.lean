import Mathlib.Data.List.Infix
import ThriftRpc.Packrat.Arithmetic

/-!
# Sums and products without a memo

The plain parser of the grammar of sums and products: an operand, then operators with an operand
behind as long as they match. There is no left recursion in it, and nothing is kept.
-/

namespace ThriftRpc.Packrat.Arithmetic

/-- The rules that have a memo. -/
inductive Name where
  | sum
  | prod

namespace Name

def operator : Name → Char
  | sum => '+'
  | prod => '*'

/-- The operators of a rule join what the rules of higher rank read. -/
def rank : Name → Nat
  | sum => 0
  | prod => 1

end Name

/-- What lies behind a part of a text that is not empty. -/
def Behind (text rest : List Char) : Prop := rest <:+ text ∧ rest.length < text.length

namespace Behind

variable {text middle rest : List Char}

theorem tail (c : Char) (text : List Char) : Behind (c :: text) text :=
  ⟨List.suffix_cons _ _, Nat.lt_succ_self _⟩

theorem of_suffix (h : Behind text middle) (hrest : rest <:+ middle) : Behind text rest :=
  ⟨hrest.trans h.1, hrest.length_le.trans_lt h.2⟩

end Behind

mutual

/-- One of the things that the operators of a rule join. -/
def operand? (name : Name) (text : List Char) :
    Option (String × {rest // Behind text rest}) :=
  match name, text with
  | .sum, text => plain? .prod text
  | .prod, [] => none
  | .prod, c :: text =>
    if c.isDigit then some (c.toString, ⟨text, .tail c text⟩)
    else if c = '(' then
      match plain? .sum text with
      | some (inner, ⟨')' :: rest, h⟩) =>
        some (s!"[{inner}]", ⟨rest, (Behind.tail c text).of_suffix
          (h.of_suffix (List.suffix_cons _ _)).1⟩)
      | _ => none
    else none
termination_by (text.length, 1 - name.rank, 0)
decreasing_by
  · exact .right _ (.left _ _ (by decide))
  · exact .left _ _ (Nat.lt_succ_self _)

/-- An operand, followed by as many operators with operands as match. -/
def plain? (name : Name) (text : List Char) : Option (String × {rest // Behind text rest}) :=
  match operand? name text with
  | none => none
  | some (first, ⟨rest, h⟩) =>
    let (answer, rest') := pairs name first rest
    some (answer, ⟨rest', h.of_suffix rest'.2⟩)
termination_by (text.length, 1 - name.rank, 1)
decreasing_by
  · exact .right _ (.right _ Nat.one_pos)
  · exact .left _ _ h.2

/-- Reads operators with their operands, associated to the left. -/
def pairs (name : Name) (left : String) (text : List Char) :
    String × {rest : List Char // rest <:+ text} :=
  match text with
  | [] => (left, ⟨[], List.suffix_refl _⟩)
  | c :: text =>
    if c = name.operator then
      match operand? name text with
      | none => (left, ⟨c :: text, List.suffix_refl _⟩)
      | some (right, ⟨rest, h⟩) =>
        let (answer, rest') := pairs name s!"({left}{name.operator}{right})" rest
        (answer, ⟨rest', ((Behind.tail c text).of_suffix (rest'.2.trans h.1)).1⟩)
    else (left, ⟨c :: text, List.suffix_refl _⟩)
termination_by (text.length, 0, 0)
decreasing_by
  · exact .left _ _ (Nat.lt_succ_self _)
  · exact .left _ _ (h.2.trans (Nat.lt_succ_self _))

end

/-! ## Its equations -/

def operand (name : Name) (text : List Char) : Option (String × List Char) :=
  (operand? name text).map fun found => (found.1, found.2)

/-- What the plain parser reads, and what it leaves. -/
def plain (name : Name) (text : List Char) : Option (String × List Char) :=
  (plain? name text).map fun found => (found.1, found.2)

def chained (name : Name) (left : String) (text : List Char) : String × List Char :=
  ((pairs name left text).1, (pairs name left text).2)

variable {name : Name} {text rest : List Char} {c : Char} {a left right : String}

theorem operand_behind (h : operand name text = some (a, rest)) : Behind text rest := by
  obtain ⟨⟨a', rest', hbehind⟩, -, heq⟩ := Option.map_eq_some_iff.mp h
  cases heq
  exact hbehind

theorem plain_behind (h : plain name text = some (a, rest)) : Behind text rest := by
  obtain ⟨⟨a', rest', hbehind⟩, -, heq⟩ := Option.map_eq_some_iff.mp h
  cases heq
  exact hbehind

theorem operand_sum (text : List Char) : operand .sum text = plain .prod text := by
  unfold operand
  rw [operand?]
  rfl

theorem operand_prod_nil : operand .prod [] = none := by
  unfold operand
  rw [operand?]
  rfl

theorem operand_digit (h : c.isDigit) : operand .prod (c :: text) = some (c.toString, text) := by
  unfold operand
  rw [operand?, if_pos h]
  rfl

theorem operand_closed (h : plain .sum text = some (a, ')' :: rest)) :
    operand .prod ('(' :: text) = some (s!"[{a}]", rest) := by
  obtain ⟨⟨a', rest', hbehind⟩, hplain, heq⟩ := Option.map_eq_some_iff.mp h
  cases heq
  unfold operand
  rw [operand?, if_neg (by decide), if_pos rfl, hplain]
  rfl

theorem operand_open (h : ∀ a rest, plain .sum text ≠ some (a, ')' :: rest)) :
    operand .prod ('(' :: text) = none := by
  unfold operand
  rw [operand?, if_neg (by decide), if_pos rfl]
  split
  · rename_i hplain
    exact absurd (by unfold plain; rw [hplain]; rfl) (h _ _)
  · rfl

theorem operand_other (hdigit : ¬ c.isDigit) (h : c ≠ '(') : operand .prod (c :: text) = none := by
  unfold operand
  rw [operand?, if_neg hdigit, if_neg h]
  rfl

theorem plain_eq (name : Name) (text : List Char) : plain name text =
    (operand name text).map fun first => chained name first.1 first.2 := by
  unfold plain operand
  rw [plain?]
  rcases operand? name text with _ | ⟨first, rest⟩ <;> rfl

/-- Either one more operator with its operand is read, or there is none. -/
theorem chained_step (name : Name) (left : String) (text : List Char) :
    (∃ more right rest, text = name.operator :: more ∧ operand name more = some (right, rest) ∧
      chained name left text = chained name s!"({left}{name.operator}{right})" rest) ∨
    ((∀ more, text = name.operator :: more → operand name more = none) ∧
      chained name left text = (left, text)) := by
  unfold chained
  rcases text with _ | ⟨c, more⟩
  · exact .inr ⟨by simp, by rw [pairs]⟩
  by_cases hc : c = name.operator
  · subst hc
    unfold operand
    cases hoperand : operand? name more with
    | none =>
      refine .inr ⟨fun more' h => ?_, by rw [pairs, if_pos rfl, hoperand]⟩
      cases h
      rw [hoperand]
      rfl
    | some found =>
      exact .inl ⟨more, found.1, found.2, rfl, by rw [hoperand]; rfl,
        by rw [pairs, if_pos rfl, hoperand]⟩
  · exact .inr ⟨fun more' h => absurd (List.cons.inj h).1 hc, by rw [pairs, if_neg hc]⟩

end ThriftRpc.Packrat.Arithmetic
