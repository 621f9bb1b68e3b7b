import ThriftRpc.Proofs.Idl.Fixed

/-!
# Lists are repetitions

A list rule gives what a loop over its item gives, and comes to the same place (`list_alike`), as
long as the entries it looks up tell the truth. It looks up its own entry where it begins. Besides,
a function looks up fields, and only further on in the text than where it begins.

The entries do tell the truth (`Truthful`) in every state that a parse comes to (`Visited`), but for
those of the rules that are being evaluated. None of these is looked up by another rule.
-/

namespace ThriftRpc.Idl

open Packrat (Entry Memo HasCursor)
open Text (Cursor)

namespace Parser

variable {α : Type} {text : List Char} {K L : Set (Memos → Prop)} {m n : Nat}

/-- One item, and then items until there is none. -/
def oneOrMore (item : Parser α) : Parser (List α) := attempt do
  let a ← item
  return a :: (← many item)

section Place

variable {item : Parser α} {J : Memos → Prop} {x : Memos} {c c' : Cursor} {as : List α}

theorem Chain.runs_many (h : Chain K item c as c') (hlen : as.length ≤ c.rest.length) :
    Runs K (Parser.many item) c (some as) c' := by
  obtain ⟨_, rfl, htakes⟩ := h.many hlen c rfl
  exact htakes

theorem Chain.fails (h : Chain K item c as c') : Fails K item c' := by
  induction h with
  | nil hfails => exact hfails
  | cons _ _ _ ih => exact ih

theorem Runs.attempt_none {p : Parser α} (h : Runs K p c none c') :
    Runs K (attempt p) c none c := by
  intro J hJ s hs hsc
  obtain ⟨s', hrun, -, hs'⟩ := h J hJ s hs hsc
  exact ⟨_, attempt_of_none hrun, hsc, hs'⟩

theorem Runs.attempt_some {p : Parser α} {a : α} (h : Runs K p c (some a) c') :
    Runs K (attempt p) c (some a) c' := by
  intro J hJ s hs hsc
  obtain ⟨s', hrun, hcur, hs'⟩ := h J hJ s hs hsc
  exact ⟨s', attempt_of_some hrun, hcur, hs'⟩

/-- Where a parser answers, it comes to a place in the text. -/
theorem Fixed.takes_splits (h : Fixed text K m n item) (hJ : J ∈ K) (hx : J x) (hc : c.Splits text)
    (hm : m ≤ c.offset) {a : α} (htakes : Takes K item c a c') :
    c'.Splits text ∧ c.offset ≤ c'.offset := by
  obtain ⟨o, c₁, hrun, hc₁, hle, -⟩ := h c hc hm
  cases o with
  | none => exact absurd hrun.fails (htakes.not_fails hJ hx)
  | some b =>
    obtain ⟨-, rfl⟩ := htakes.unique hJ hx hrun.takes
    exact ⟨hc₁, hle⟩

theorem Fixed.chain_splits (h : Fixed text K m n item) (hJ : J ∈ K) (hx : J x)
    (hchain : Chain K item c as c') (hc : c.Splits text) (hm : m ≤ c.offset) :
    c'.Splits text ∧ c.offset ≤ c'.offset := by
  induction hchain with
  | nil => exact ⟨hc, Nat.le_refl _⟩
  | cons htakes _ _ ih =>
    obtain ⟨hc₁, hle⟩ := h.takes_splits hJ hx hc hm htakes
    obtain ⟨hc', hle'⟩ := ih hc₁ (hm.trans hle)
    exact ⟨hc', hle.trans hle'⟩

theorem Fixed.grown_splits {base : Parser (List α)} (h : Fixed text K m n item)
    (hbase : Fixed text K m 0 base) (hJ : J ∈ K) (hx : J x) (hgrown : Grown K item base c as c')
    (hc : c.Splits text) (hm : m ≤ c.offset) : c'.Splits text ∧ c.offset ≤ c'.offset := by
  obtain ⟨seed, more, c₁, -, htakes, hchain⟩ := hgrown
  obtain ⟨hc₁, hle⟩ := hbase.takes_splits hJ hx hc hm htakes
  obtain ⟨hc', hle'⟩ := h.chain_splits hJ hx hchain hc₁ (hm.trans hle)
  exact ⟨hc', hle.trans hle'⟩

end Place

/-! ## A list rule from a place -/

section List

variable {slot : Packrat.Slot State (List α)} {part : Part slot} {item : Parser α} {c : Cursor}

/-- A rule and a loop over `item` do the same from `c`: they answer `o` and come to `c'`. Without an
answer they stay, and behind an answer there is no further item. -/
structure Alike (text : List Char) (K L : Set (Memos → Prop)) (item : Parser α)
    (rule loop : Parser (List α)) (c : Cursor) (o : Option (List α)) (c' : Cursor) : Prop where
  rule : Runs K rule c o c'
  loop : Runs L loop c o c'
  splits : c'.Splits text
  ahead : c.offset ≤ c'.offset
  stays : o = none → c' = c
  exhausts : o.isSome = true → Fails L item c'

theorem oneOrMore_alike (hitem : Fixed text L m 1 item)
    (hK : CarriesAt L item (do return [← item]) c part K) (hc : c.Splits text)
    (hm : m ≤ c.offset) :
    ∃ o c', Alike text K L item (Packrat.apply slot (oneMore slot item (do return [← item])))
      (oneOrMore item) c o c' := by
  obtain ⟨o, c₁, hrun, hc₁, hle, hsome⟩ := hitem c hc hm
  cases o with
  | none =>
    exact ⟨none, c, hK.rewinds hrun.bind_none.fails, hrun.bind_none.attempt_none, hc,
      Nat.le_refl _, fun _ => rfl, nofun⟩
  | some a =>
    have hlt := hsome rfl
    obtain ⟨as, c', hchain, hc', hmore⟩ := hitem.chain hc₁ (hm.trans hle)
    have htotal := hc.length_eq
    have htotal₁ := hc₁.length_eq
    have htotal' := hc'.length_eq
    have hseed : Takes L (do return [← item]) c [a] c₁ := hrun.bind fun _ _ s hs hsc =>
      ⟨s, rfl, hsc, hs⟩
    have hlen : (a :: as).length ≤ c.rest.length := by
      rw [List.length_cons]
      omega
    have hloop : Runs L (do return a :: (← many item)) c₁ (some (a :: as)) c' :=
      (hchain.runs_many (by omega)).bind fun _ _ s hs hsc => ⟨s, rfl, hsc, hs⟩
    exact ⟨some (a :: as), c', hK.takes ⟨[a], as, c₁, rfl, hseed, hchain⟩ hlen,
      (hrun.bind hloop).attempt_some, hc', by omega, nofun, fun _ => hchain.fails⟩

theorem many_alike (hitem : Fixed text L m 1 item)
    (hK : CarriesAt L item (return []) c part K) (hc : c.Splits text) (hm : m ≤ c.offset) :
    ∃ o c', Alike text K L item (Packrat.apply slot (oneMore slot item (return []))) (many item) c
      o c' := by
  obtain ⟨as, c', hchain, hc', hmore⟩ := hitem.chain hc hm
  have htotal := hc.length_eq
  have htotal' := hc'.length_eq
  have hlen : as.length ≤ c.rest.length := by omega
  have hseed : Takes L (return [] : Parser (List α)) c [] c := fun _ _ s hs hsc => ⟨s, rfl, hsc, hs⟩
  exact ⟨some as, c', hK.takes ⟨[], as, c, rfl, hseed, hchain⟩ hlen, hchain.runs_many hlen, hc',
    by omega, nofun, fun _ => hchain.fails⟩

end List

end Parser

/-! ## The rules and their items -/

namespace ListRule

def item : (r : ListRule) → Parser r.Item
  | fields => Parser.field
  | functions => Parser.function
  | members => Parser.enumMember
  | literals => Parser.textItem

/-- What a list begins with. -/
def base : (r : ListRule) → Parser (List r.Item)
  | fields => do return [← Parser.field]
  | functions => do return [← Parser.function]
  | members => do return [← Parser.enumMember]
  | literals => return []

def part : (r : ListRule) → Parser.Part r.slot
  | fields => Parser.fieldPart
  | functions => Parser.functionPart
  | members => Parser.memberPart
  | literals => Parser.literalPart

theorem part_get_set_ne {r r' : ListRule} (h : r' ≠ r) (m : Memo (List r.Item)) (x : Memos) :
    r'.part.get (r.part.set m x) = r'.part.get x := by
  cases r <;> cases r' <;> first | rfl | exact absurd rfl h

end ListRule

namespace Parser

variable {text : List Char} {m n : Nat}

/-- The loop that a list rule stands for. -/
def repetition : (r : ListRule) → Parser (List r.Item)
  | .fields => oneOrMore field
  | .functions => oneOrMore function
  | .members => oneOrMore enumMember
  | .literals => many textItem

theorem listBody_eq (r : ListRule) : listBody r = oneMore r.slot r.item r.base := by
  cases r <;> rfl

/-- An answer ends at a place in the text, from where it begins on. -/
def EndsIn (text : List Char) (k : Nat) {α : Type} (e : Entry α) : Prop :=
  ∀ a stop, e = .settled (some a) stop → stop.Splits text ∧ k ≤ stop.offset

/-- An entry tells the truth on the fields from an offset on. -/
def FieldsTell (text : List Char) (k : Nat) (e : Entry (List Field)) : Prop :=
  Tells Set.univ field (do return [← field]) ((Cursor.ofText text).advance k) e ∧ EndsIn text k e

/-- The properties that rely on true entries for fields behind the offset `m`, and neither on what
these hold nor on whether they are there. -/
def KeptBehind (text : List Char) (m : Nat) : Set (Memos → Prop) :=
  {J | (∀ x, J x → ∀ k e, m < k → x.fields.at? k = some e → FieldsTell text k e) ∧
    ∀ x fs, J x → (∀ k e, m < k → fs.at? k = some e → FieldsTell text k e) →
      (∀ k, k ≤ m → fs.at? k = x.fields.at? k) → J { x with fields := fs }}

/-- What the items of a list from an offset on keep. -/
def keptBy (text : List Char) : ListRule → Nat → Set (Memos → Prop)
  | .functions, m => KeptBehind text m
  | .fields, _ | .members, _ | .literals, _ => Set.univ

/-- The memos before anything has been read. -/
def noMemos : Memos := ⟨[], [], [], []⟩

theorem exists_keptBy (text : List Char) (r : ListRule) (m : Nat) :
    ∃ J ∈ keptBy text r m, J noMemos := by
  cases r with
  | functions =>
    refine ⟨fun x => ∀ k e, m < k → x.fields.at? k = some e → FieldsTell text k e,
      ⟨fun _ h => h, fun _ _ _ h _ => h⟩, fun _ _ _ h => nomatch h⟩
  | fields | members | literals => exact ⟨fun _ => True, Set.mem_univ _, trivial⟩

section Items

variable {c c' : Cursor}

theorem single_fixed {α : Type} {K : Set (Memos → Prop)} {item : Parser α}
    (h : Fixed text K m n item) : Fixed text K m 0 (do return [← item]) := h.bind fun _ => .pure _

theorem fields_carriesAt (hc : c.Splits text) (hm : m < c.offset) :
    CarriesAt Set.univ field (do return [← field]) c fieldPart (KeptBehind text m) where
  sound J hJ x hx e hentry := by
    have htells := (hJ.1 x hx c.offset e hm hentry).1
    rwa [← hc.eq_advance] at htells
  renew J hJ x fs e hx hat he hother := by
    refine hJ.2 x fs hx (fun k e' hk hentry => ?_) fun k hk => hother k (by omega)
    by_cases hkc : k = c.offset
    · subst hkc
      cases hat.symm.trans hentry
      refine ⟨by rwa [← hc.eq_advance], fun as stop heq => ?_⟩
      subst heq
      exact field_fixed.grown_splits (single_fixed field_fixed) (Set.mem_univ _) hx he hc
        (Nat.zero_le _)
    · exact hJ.1 x hx k e' hk ((hother k hkc).symm.trans hentry)
  inner _ _ _ _ := Set.mem_univ _

theorem fieldList_fixed (m : Nat) : Fixed text (KeptBehind text m) (m + 1) 0 fieldList := by
  intro c hc hm
  obtain ⟨o, c', h⟩ :=
    oneOrMore_alike field_fixed (fields_carriesAt hc hm) hc (Nat.zero_le _)
  exact ⟨o, c', h.rule, h.splits, h.ahead, fun _ => h.ahead⟩

theorem fields_fixed (m : Nat) : Fixed text (KeptBehind text m) (m + 1) 0 fields :=
  (fieldList_fixed m).optional.bind fun _ => .pure _

theorem throwsClause_fixed (m : Nat) : Fixed text (KeptBehind text m) (m + 1) 0 throwsClause :=
  (keyword_fixed (by decide)).bind fun _ => (symbol_fixed (by decide)).bind fun _ =>
    (fields_fixed m).bind fun _ => (symbol_fixed (by decide)).bind fun _ => .pure _

theorem signature_fixed (oneway : Bool) (returns : Option Ty) :
    Fixed text (KeptBehind text m) m 1 (signature oneway returns) :=
  identifier_fixed.bind_further fun _ => (symbol_fixed (by decide)).bind fun _ =>
    (fields_fixed m).bind fun _ => (symbol_fixed (by decide)).bind fun _ =>
    (throwsClause_fixed m).optional.bind fun _ => annotations_fixed.bind fun _ =>
    separator_fixed.bind fun _ => .pure _

theorem function_fixed : Fixed text (KeptBehind text m) m 1 function :=
  Fixed.bind (Fixed.succeeds <| (keyword_fixed (by decide)).firstOf_cons <|
      (keyword_fixed (by decide)).firstOf_cons .firstOf_nil) fun oneway =>
    (keyword_fixed (by decide)).succeeds.bind fun _ =>
    .ite ((Fixed.pure none).bind (signature_fixed oneway))
      (type_fixed.map.bind (signature_fixed oneway))

theorem item_fixed (r : ListRule) (m : Nat) : Fixed text (keptBy text r m) m 1 r.item := by
  cases r with
  | fields => exact field_fixed
  | functions => exact function_fixed
  | members => exact enumMember_fixed
  | literals => exact textItem_fixed

theorem base_fixed (r : ListRule) (m : Nat) : Fixed text (keptBy text r m) m 0 r.base := by
  cases r with
  | fields => exact single_fixed field_fixed
  | functions => exact single_fixed function_fixed
  | members => exact single_fixed enumMember_fixed
  | literals => exact .pure []

theorem list_alike {K : Set (Memos → Prop)} (r : ListRule)
    (hK : CarriesAt (keptBy text r c.offset) r.item r.base c r.part K) (hc : c.Splits text) :
    ∃ o c', Alike text K (keptBy text r c.offset) r.item (list r) (repetition r) c o c' := by
  have hle := Nat.le_refl c.offset
  rw [list_eq, listBody_eq]
  cases r with
  | fields => exact oneOrMore_alike field_fixed hK hc hle
  | functions => exact oneOrMore_alike function_fixed hK hc hle
  | members => exact oneOrMore_alike enumMember_fixed hK hc hle
  | literals => exact many_alike textItem_fixed hK hc hle

end Items

end Parser

/-! ## States of a parse -/

/-- Applied at an offset, a rule looks up its own entry there. The functions of a list look up
fields as well, further on. -/
inductive ListRule.Relies : ListRule → Nat → ListRule → Nat → Prop
  | own (r : ListRule) (k : Nat) : Relies r k r k
  | arguments {k k' : Nat} : k < k' → Relies functions k fields k'

namespace Parser

variable {text : List Char} {pending : List (ListRule × Nat)} {r : ListRule} {s s' : State}
  {c : Cursor} {x : Memos} {m k : Nat}

/-- None of the evaluations in progress is one that the rule relies on. -/
def Free (pending : List (ListRule × Nat)) (r : ListRule) (k : Nat) : Prop :=
  ∀ p ∈ pending, ¬ r.Relies k p.1 p.2

/-- Evaluations that began no further on matter to no rule but to the one that is evaluated. -/
theorem free_of_not_mem (hle : ∀ p ∈ pending, p.2 ≤ k) (hnot : (r, k) ∉ pending) :
    Free pending r k := by
  rintro ⟨r', k'⟩ hmem hrelies
  cases hrelies with
  | own => exact hnot hmem
  | arguments hlt => exact Nat.not_lt.2 (hle _ hmem) hlt

/-- The states that a parse comes to, while rules are being evaluated from some offsets. Parsers
move the cursor within the text, though not to before an evaluation in progress, and note failures.
They apply list rules, and the evaluation of a rule changes its own entry. -/
inductive Visited (text : List Char) : List (ListRule × Nat) → State → Prop
  | start : Visited text [] (State.ofText text)
  | move {pending : List (ListRule × Nat)} {s s' : State} : Visited text pending s →
    s'.memos = s.memos → s'.cursor.Splits text → (∀ p ∈ pending, p.2 ≤ s'.cursor.offset) →
    Visited text pending s'
  | apply {pending : List (ListRule × Nat)} {s : State} (r : ListRule) : Visited text pending s →
    (r, s.cursor.offset) ∉ pending → Visited text pending (list r s).2
  | enter {pending : List (ListRule × Nat)} {s : State} (r : ListRule) : Visited text pending s →
    Visited text ((r, s.cursor.offset) :: pending) s
  | hold {pending : List (ListRule × Nat)} {s : State} {r : ListRule} {k : Nat}
    (e : Entry (List r.Item)) : Visited text pending s → (r, k) ∈ pending → EndsIn text k e →
    Visited text pending (r.slot.record k e s)

/-- The memos tell the truth, but for the entries of the evaluations in progress. -/
structure Truthful (text : List Char) (pending : List (ListRule × Nat)) (x : Memos) : Prop where
  tells : ∀ (r : ListRule) (k : Nat) (e : Entry (List r.Item)), (r, k) ∉ pending →
    (r.part.get x).at? k = some e →
    Tells (keptBy text r k) r.item r.base ((Cursor.ofText text).advance k) e
  ends : ∀ (r : ListRule) (k : Nat) (e : Entry (List r.Item)),
    (r.part.get x).at? k = some e → EndsIn text k e

namespace Truthful

theorem fields (h : Truthful text pending x) (hfree : Free pending .functions m) (e : Entry _)
    (hk : m < k) (he : x.fields.at? k = some e) : FieldsTell text k e :=
  ⟨h.tells .fields k e (fun hmem => hfree _ hmem (.arguments hk)) he, h.ends .fields k e he⟩

theorem set_fields (h : Truthful text pending x) {fs : Memo (List Field)}
    (hbehind : ∀ k e, m < k → fs.at? k = some e → FieldsTell text k e)
    (hbefore : ∀ k, k ≤ m → fs.at? k = x.fields.at? k) :
    Truthful text pending { x with fields := fs } where
  tells r k e hnot he := by
    cases r with
    | fields =>
      by_cases hk : m < k
      · exact (hbehind k e hk he).1
      · exact h.tells .fields k e hnot ((hbefore k (Nat.le_of_not_lt hk)).symm.trans he)
    | functions => exact h.tells .functions k e hnot he
    | members => exact h.tells .members k e hnot he
    | literals => exact h.tells .literals k e hnot he
  ends r k e he := by
    cases r with
    | fields =>
      by_cases hk : m < k
      · exact (hbehind k e hk he).2
      · exact h.ends .fields k e ((hbefore k (Nat.le_of_not_lt hk)).symm.trans he)
    | functions => exact h.ends .functions k e he
    | members => exact h.ends .members k e he
    | literals => exact h.ends .literals k e he

theorem mem_keptBy (text : List Char) (hfree : Free pending r m) :
    Truthful text pending ∈ keptBy text r m := by
  cases r with
  | functions =>
    exact ⟨fun x hx k e hk he => hx.fields hfree e hk he,
      fun x fs hx hbehind hbefore => hx.set_fields hbehind hbefore⟩
  | fields | members | literals => exact Set.mem_univ _

theorem amid_mem_keptBy (text : List Char) (hfree : Free pending r m)
    (before during : Memo (List r.Item)) :
    Amid r.part (Truthful text pending) before during ∈ keptBy text r m := by
  cases r with
  | functions =>
    exact ⟨fun x hx k e hk he => hx.2.fields hfree e hk he,
      fun x fs hx hbehind hbefore => ⟨hx.1, hx.2.set_fields hbehind hbefore⟩⟩
  | fields | members | literals => exact Set.mem_univ _

/-- One entry for another, of a rule that is not being evaluated or is. -/
theorem set (h : Truthful text pending x) {entries : Memo (List r.Item)}
    (htells : ∀ e, (r, k) ∉ pending → entries.at? k = some e →
      Tells (keptBy text r k) r.item r.base ((Cursor.ofText text).advance k) e)
    (hends : ∀ e, entries.at? k = some e → EndsIn text k e)
    (hother : ∀ j, j ≠ k → entries.at? j = (r.part.get x).at? j) :
    Truthful text pending (r.part.set entries x) where
  tells r' j e hnot he := by
    by_cases hr : r' = r
    · subst hr
      rw [r'.part.get_set] at he
      by_cases hj : j = k
      · exact hj ▸ htells e (hj ▸ hnot) (hj ▸ he)
      · exact h.tells r' j e hnot ((hother j hj).symm.trans he)
    · rw [ListRule.part_get_set_ne hr] at he
      exact h.tells r' j e hnot he
  ends r' j e he := by
    by_cases hr : r' = r
    · subst hr
      rw [r'.part.get_set] at he
      by_cases hj : j = k
      · subst hj
        exact hends e he
      · exact h.ends r' j e ((hother j hj).symm.trans he)
    · rw [ListRule.part_get_set_ne hr] at he
      exact h.ends r' j e he

theorem carriesAt (hc : c.Splits text) (hfree : Free pending r c.offset) :
    CarriesAt (keptBy text r c.offset) r.item r.base c r.part {Truthful text pending} where
  sound := by
    rintro _ rfl x hx e he
    have htells := hx.tells r c.offset e (fun hmem => hfree _ hmem (.own _ _)) he
    rwa [← hc.eq_advance] at htells
  renew := by
    rintro _ rfl x entries e hx hat he hother
    have hplace : Tells (keptBy text r c.offset) r.item r.base
        ((Cursor.ofText text).advance c.offset) e := by rwa [← hc.eq_advance]
    refine hx.set (fun e' _ he' => ?_) (fun e' he' as stop heq => ?_) hother
    · cases hat.symm.trans he'
      exact hplace
    · cases hat.symm.trans he'
      subst heq
      obtain ⟨J, hJ, hempty⟩ := exists_keptBy text r c.offset
      exact (item_fixed r _).grown_splits (base_fixed r _) hJ hempty he hc (Nat.le_refl _)
  inner := by
    rintro _ rfl before during
    exact amid_mem_keptBy text hfree before during

end Truthful

theorem truthful_noMemos (text : List Char) : Truthful text [] noMemos := by
  have hnone (r : ListRule) (k : Nat) : (r.part.get noMemos).at? k = none := by cases r <;> rfl
  constructor
  · intro r k e _ he
    rw [hnone] at he
    cases he
  · intro r k e he
    rw [hnone] at he
    cases he

/-- Memos that tell the truth help a rule to what its loop gives, and go on telling the truth. -/
theorem Truthful.alike (hc : c.Splits text) (hfree : Free pending r c.offset) :
    ∃ o c', Alike text {Truthful text pending} (keptBy text r c.offset) r.item (list r)
      (repetition r) c o c' :=
  list_alike r (Truthful.carriesAt hc hfree) hc

/-- What holds of every state of a parse. -/
structure Coherent (text : List Char) (pending : List (ListRule × Nat)) (s : State) : Prop where
  splits : s.cursor.Splits text
  behind : ∀ p ∈ pending, p.2 ≤ s.cursor.offset
  memos : Truthful text pending s.memos

theorem Visited.coherent (h : Visited text pending s) : Coherent text pending s := by
  induction h with
  | start => exact ⟨.ofText text, List.forall_mem_nil _, truthful_noMemos text⟩
  | move _ hmemos hc hle ih => exact ⟨hc, hle, hmemos ▸ ih.memos⟩
  | apply r _ hnot ih =>
    obtain ⟨o, c', h⟩ := Truthful.alike ih.splits (free_of_not_mem ih.behind hnot)
    obtain ⟨s', hrun, rfl, hs'⟩ := h.rule _ rfl _ ih.memos rfl
    rw [hrun]
    exact ⟨h.splits, fun p hmem => (ih.behind p hmem).trans h.ahead, hs'⟩
  | enter r _ ih =>
    refine ⟨ih.splits, List.forall_mem_cons.2 ⟨Nat.le_refl _, ih.behind⟩, ?_⟩
    exact ⟨fun r' k e hnot => ih.memos.tells r' k e fun hmem => hnot (List.mem_cons_of_mem _ hmem),
      ih.memos.ends⟩
  | @hold pending s r k e _ hmem hends ih =>
    have hcursor : (r.slot.record k e s).cursor = s.cursor := ListRule.cursor_record ..
    refine ⟨hcursor ▸ ih.splits, hcursor ▸ ih.behind, ?_⟩
    rw [r.part.memos_record]
    refine ih.memos.set (fun e' hnot => absurd hmem hnot) (fun e' he' => ?_) fun j hj => ?_
    · rw [Packrat.Memo.at?_record, if_pos rfl] at he'
      cases he'
      exact hends
    · rw [Packrat.Memo.at?_record, if_neg hj]

end Parser

end ThriftRpc.Idl
