import ThriftRpc.Proofs.Idl.Lexeme

/-!
# Every list of nodes can be written

The grammar has a way to write every node that is no comment and holds neither doubles nor words
that are no names.
-/

namespace ThriftRpc.Idl.Grammar

open Text (isBlank digitsValue)

def IsName (w : String) : Prop := HasNameForm w.toList ∧ w ∉ reserved

instance (w : String) : Decidable (IsName w) := inferInstanceAs (Decidable (_ ∧ _))

def ExpressibleType : Ty → Prop
  | .prim _ => True
  | .named w => IsName w ∧ Primitive.ofKeyword? w = none
  | .list elem | .set elem => ExpressibleType elem
  | .map key value => ExpressibleType key ∧ ExpressibleType value

inductive ExpressibleConst : Const → Prop
  | int (n : Int64) : ExpressibleConst (.int n)
  | string (s : String) : ExpressibleConst (.string s)
  | identifier {w : String} : IsName w → ExpressibleConst (.identifier w)
  | list {items : List Const} : (∀ v ∈ items, ExpressibleConst v) → ExpressibleConst (.list items)
  | map {entries : List (Const × Const)} : (∀ e ∈ entries, ExpressibleConst e.1) →
    (∀ e ∈ entries, ExpressibleConst e.2) → ExpressibleConst (.map entries)

structure ExpressibleField (f : Field) : Prop where
  name : IsName f.name
  type : ExpressibleType f.type
  default : ∀ v ∈ f.default, ExpressibleConst v

structure ExpressibleFunction (f : Function) : Prop where
  name : IsName f.name
  returns : ∀ t ∈ f.returns, ExpressibleType t
  arguments : ∀ a ∈ f.arguments, ExpressibleField a
  throws : ∀ e ∈ f.throws, ExpressibleField e

/-- Exceptions are no structs here, but nodes of their own. -/
def Expressible : Node → Prop
  | .comment _ => False
  | .scope lang w => (∀ l ∈ lang, IsName l) ∧ IsName w
  | .inclusion _ => True
  | .constant w type value => IsName w ∧ ExpressibleType type ∧ ExpressibleConst value
  | .typedef w target => IsName w ∧ ExpressibleType target
  | .enum w members => IsName w ∧ ∀ m ∈ members, IsName m.name
  | .senum w _ => IsName w
  | .struct kind w fields => kind ≠ .exception ∧ IsName w ∧ ∀ f ∈ fields, ExpressibleField f
  | .exception w fields => IsName w ∧ ∀ f ∈ fields, ExpressibleField f
  | .service w parent functions => IsName w ∧ (∀ p ∈ parent, IsName p) ∧
    ∀ f ∈ functions, ExpressibleFunction f

theorem IsName.exists_name {w : String} (h : IsName w) : ∃ n : Name, n.text = w :=
  ⟨⟨w, h.1, h.2⟩, rfl⟩

theorem exists_digits (n : Nat) :
    ∃ ds, ds ≠ [] ∧ (∀ c ∈ ds, c.isDigit = true) ∧ digitsValue ds = n := by
  induction n using Nat.strongRecOn with
  | ind n ih =>
    have hdigit : ∀ d < 10, (Char.ofNat (48 + d)).isDigit = true ∧
        (Char.ofNat (48 + d)).toNat - '0'.toNat = d := by decide
    by_cases hn : n < 10
    · refine ⟨[Char.ofNat (48 + n)], by simp, by simpa using (hdigit n hn).1, ?_⟩
      simpa [digitsValue] using (hdigit n hn).2
    · obtain ⟨ds, -, hds, hvalue⟩ := ih (n / 10) (by omega)
      obtain ⟨hlast, hcode⟩ := hdigit (n % 10) (Nat.mod_lt n (by omega))
      refine ⟨ds ++ [Char.ofNat (48 + n % 10)], by simp, ?_, ?_⟩
      · simp only [List.forall_mem_append, List.forall_mem_singleton]
        exact ⟨hds, hlast⟩
      · unfold digitsValue at hvalue ⊢
        rw [List.foldl_append, hvalue, List.foldl_cons, List.foldl_nil, hcode]
        omega

theorem exists_numeral (n : Int64) : ∃ m : Numeral, m.value = n := by
  obtain ⟨ds, hne, hds, hvalue⟩ := exists_digits n.toInt.natAbs
  have hlow := n.le_toInt
  have hhigh := n.toInt_lt
  have hsign : ∃ s : Sign, s.apply (digitsValue ds) = n.toInt := by
    by_cases hn : n.toInt < 0
    · refine ⟨.minus, ?_⟩
      rw [hvalue, Sign.apply]
      omega
    · refine ⟨.absent, ?_⟩
      simp only [hvalue, Sign.apply]
      omega
  obtain ⟨s, hs⟩ := hsign
  refine ⟨⟨s, ds, hne, hds, ?_⟩, ?_⟩
  · rw [hs]
    omega
  · rw [Numeral.value, hs, Int64.ofInt_toInt]

theorem spelled_self {quote : Char} {s : List Char} (hquote : quote ∉ s) (hslash : '\\' ∉ s) :
    Spelled quote s s := by
  induction s with
  | nil => exact .nil
  | cons c s ih =>
    rw [List.mem_cons, not_or] at hquote hslash
    exact .plain (Ne.symm hquote.1) (Ne.symm hslash.1) (ih hquote.2 hslash.2)

theorem exists_literal (s : String) : ∃ l : Literal, String.ofList l.value = s := by
  have hspelled : ∀ text : List Char, ∃ body, Spelled '"' body text := by
    intro text
    induction text with
    | nil => exact ⟨[], .nil⟩
    | cons c text ih =>
      obtain ⟨body, h⟩ := ih
      by_cases hquote : c = '"'
      · exact ⟨'\\' :: '"' :: body, .escape (by simp [hquote, escapes]) h⟩
      by_cases hslash : c = '\\'
      · exact ⟨'\\' :: '\\' :: body, .escape (by simp [hslash, escapes]) h⟩
      · exact ⟨c :: body, .plain hquote hslash h⟩
  obtain ⟨body, h⟩ := hspelled s.toList
  exact ⟨⟨'"', body, s.toList, .inl rfl, h⟩, String.ofList_toList⟩

/-! ## Forms -/

section Forms

variable {α : Type} {form : α → List Token → Prop}

theorem exists_each {as : List α} (h : ∀ a ∈ as, ∃ us, form a us) : ∃ ts, Each form as ts := by
  induction as with
  | nil => exact ⟨[], .nil⟩
  | cons a as ih =>
    rw [List.forall_mem_cons] at h
    obtain ⟨us, hus⟩ := h.1
    obtain ⟨ts, hts⟩ := ih h.2
    exact ⟨us ++ ts, .cons hus hts⟩

theorem exists_maybe {o : Option α} (h : ∀ a ∈ o, ∃ us, form a us) : ∃ ts, Maybe form o ts := by
  cases o with
  | none => exact ⟨[], .none⟩
  | some a =>
    obtain ⟨us, hus⟩ := h a rfl
    exact ⟨us, .some hus⟩

end Forms

theorem exists_type {t : Ty} (h : ExpressibleType t) : ∃ ts, TypeForm t ts := by
  induction t with
  | prim p =>
    have hname : IsName p.text := by cases p <;> decide
    obtain ⟨n, hn⟩ := hname.exists_name
    exact ⟨_, .prim (hn ▸ Primitive.ofKeyword?_text p) .absent⟩
  | named w =>
    obtain ⟨n, rfl⟩ := h.1.exists_name
    exact ⟨_, .named h.2 .absent⟩
  | list elem ih =>
    obtain ⟨es, hes⟩ := ih h
    exact ⟨_, .list hes .absent .absent⟩
  | set elem ih =>
    obtain ⟨es, hes⟩ := ih h
    exact ⟨_, .set .absent hes .absent⟩
  | map key value ihk ihv =>
    obtain ⟨ks, hks⟩ := ihk h.1
    obtain ⟨vs, hvs⟩ := ihv h.2
    exact ⟨_, .map .absent hks hvs .absent⟩

theorem exists_const {v : Const} (h : ExpressibleConst v) : ∃ ts, ConstForm v ts := by
  induction h with
  | int n =>
    obtain ⟨m, rfl⟩ := exists_numeral n
    exact ⟨_, .int m⟩
  | string s =>
    obtain ⟨l, rfl⟩ := exists_literal s
    exact ⟨_, .string l⟩
  | identifier h =>
    obtain ⟨n, rfl⟩ := h.exists_name
    exact ⟨_, .identifier n⟩
  | @list items _ ih =>
    have hitems : ∃ ts, ItemsForm items ts := by
      clear * - ih
      induction items with
      | nil => exact ⟨[], .nil⟩
      | cons v items ihs =>
        rw [List.forall_mem_cons] at ih
        obtain ⟨us, hus⟩ := ih.1
        obtain ⟨ts, hts⟩ := ihs ih.2
        exact ⟨_, .cons hus .absent hts⟩
    obtain ⟨ts, hts⟩ := hitems
    exact ⟨_, .list hts⟩
  | @map entries _ _ ihk ihv =>
    have hentries : ∃ ts, EntriesForm entries ts := by
      clear * - ihk ihv
      induction entries with
      | nil => exact ⟨[], .nil⟩
      | cons e entries ihs =>
        rw [List.forall_mem_cons] at ihk ihv
        obtain ⟨ks, hks⟩ := ihk.1
        obtain ⟨vs, hvs⟩ := ihv.1
        obtain ⟨ts, hts⟩ := ihs ihk.2 ihv.2
        exact ⟨_, .cons hks hvs .absent hts⟩
    obtain ⟨ts, hts⟩ := hentries
    exact ⟨_, .map hts⟩

theorem exists_field {f : Field} (h : ExpressibleField f) : ∃ ts, FieldForm f ts := by
  obtain ⟨index, r, t, w, default⟩ := f
  obtain ⟨n, rfl⟩ := h.name.exists_name
  obtain ⟨ts, hts⟩ := exists_type h.type
  have hindex : ∃ us, Maybe IndexForm index us := exists_maybe fun i _ => by
    obtain ⟨m, rfl⟩ := exists_numeral i
    exact ⟨_, .intro m⟩
  have hrequired : ∃ us, Maybe RequirednessForm r us := exists_maybe fun r _ => by
    cases r with
    | required => exact ⟨_, .required⟩
    | optional => exact ⟨_, .optional⟩
  have hdefault : ∃ us, Maybe DefaultForm default us := exists_maybe fun v hv => by
    obtain ⟨vs, hvs⟩ := exists_const (h.default v hv)
    exact ⟨_, .intro hvs⟩
  obtain ⟨is, his⟩ := hindex
  obtain ⟨rs, hrs⟩ := hrequired
  obtain ⟨ds, hds⟩ := hdefault
  exact ⟨_, .intro his hrs hts hds .absent .absent⟩

theorem exists_function {f : Function} (h : ExpressibleFunction f) : ∃ ts, FunctionForm f ts := by
  obtain ⟨w, returns, arguments, throws, oneway⟩ := f
  obtain ⟨n, rfl⟩ := h.name.exists_name
  obtain ⟨args, hargs⟩ := exists_each fun a ha => exists_field (h.arguments a ha)
  obtain ⟨ths, hths⟩ := exists_each fun e he => exists_field (h.throws e he)
  have hreturn : ∃ us, ReturnForm returns us := by
    cases returns with
    | none => exact ⟨_, .void⟩
    | some t =>
      obtain ⟨ts, hts⟩ := exists_type (h.returns t rfl)
      exact ⟨_, .type hts⟩
  have honeway : ∃ us, OnewayForm oneway us := by
    cases oneway with
    | false => exact ⟨_, .twoway⟩
    | true => exact ⟨_, .oneway⟩
  obtain ⟨rs, hrs⟩ := hreturn
  obtain ⟨os, hos⟩ := honeway
  exact ⟨_, .intro hos hrs hargs (.present hths) .absent .absent⟩

theorem exists_member {m : EnumMember} (h : IsName m.name) : ∃ ts, MemberForm m ts := by
  obtain ⟨w, code⟩ := m
  obtain ⟨n, rfl⟩ := h.exists_name
  have hcode : ∃ vs, Maybe CodeForm code vs := exists_maybe fun i _ => by
    obtain ⟨m, rfl⟩ := exists_numeral i
    exact ⟨_, .intro m⟩
  obtain ⟨vs, hvs⟩ := hcode
  exact ⟨_, .intro hvs .absent .absent⟩

theorem exists_node {node : Node} (h : Expressible node) : ∃ ts, NodeForm node ts := by
  cases node with
  | comment => exact h.elim
  | scope lang w =>
    obtain ⟨hlang, hw⟩ := h
    obtain ⟨n, rfl⟩ := hw.exists_name
    cases lang with
    | none => exact ⟨_, .scope n .all⟩
    | some l =>
      obtain ⟨m, rfl⟩ := (hlang l rfl).exists_name
      exact ⟨_, .scope n (.one m)⟩
  | inclusion path =>
    obtain ⟨l, rfl⟩ := exists_literal path
    exact ⟨_, .inclusion l⟩
  | constant w type value =>
    obtain ⟨hw, htype, hvalue⟩ := h
    obtain ⟨n, rfl⟩ := hw.exists_name
    obtain ⟨ts, hts⟩ := exists_type htype
    obtain ⟨vs, hvs⟩ := exists_const hvalue
    exact ⟨_, .constant n hts hvs .absent⟩
  | typedef w target =>
    obtain ⟨hw, htarget⟩ := h
    obtain ⟨n, rfl⟩ := hw.exists_name
    obtain ⟨ts, hts⟩ := exists_type htarget
    exact ⟨_, .typedef n hts .absent .absent⟩
  | enum w members =>
    obtain ⟨hw, hmembers⟩ := h
    obtain ⟨n, rfl⟩ := hw.exists_name
    have hforms : ∃ ms, Each MemberForm members ms := exists_each fun m hm =>
      exists_member (hmembers m hm)
    obtain ⟨ms, hms⟩ := hforms
    exact ⟨_, .enum n hms .absent⟩
  | senum w values =>
    obtain ⟨n, rfl⟩ := IsName.exists_name h
    have hvalues : ∃ vs, Each TextForm values vs := exists_each fun s _ => by
      obtain ⟨l, rfl⟩ := exists_literal s
      exact ⟨_, .intro l .absent⟩
    obtain ⟨vs, hvs⟩ := hvalues
    exact ⟨_, .senum n hvs⟩
  | struct kind w fields =>
    obtain ⟨hkind, hw, hfields⟩ := h
    obtain ⟨n, rfl⟩ := hw.exists_name
    obtain ⟨fs, hfs⟩ := exists_each fun f hf => exists_field (hfields f hf)
    cases kind with
    | struct => exact ⟨_, .struct n .struct .absent hfs .absent⟩
    | union => exact ⟨_, .struct n .union .absent hfs .absent⟩
    | exception => exact absurd rfl hkind
  | exception w fields =>
    obtain ⟨hw, hfields⟩ := h
    obtain ⟨n, rfl⟩ := hw.exists_name
    obtain ⟨fs, hfs⟩ := exists_each fun f hf => exists_field (hfields f hf)
    exact ⟨_, .exception n hfs .absent⟩
  | service w parent functions =>
    obtain ⟨hw, hparent, hfunctions⟩ := h
    obtain ⟨n, rfl⟩ := hw.exists_name
    have hextends : ∃ ps, Maybe ParentForm parent ps := exists_maybe fun p hp => by
      obtain ⟨m, rfl⟩ := (hparent p hp).exists_name
      exact ⟨_, .intro m⟩
    obtain ⟨ps, hps⟩ := hextends
    obtain ⟨fs, hfs⟩ := exists_each fun f hf => exists_function (hfunctions f hf)
    exact ⟨_, .service n hps hfs .absent⟩

/-- Tokens with a blank before each. -/
def spread (ts : List Token) (s : List Char) : List Char :=
  ts.foldr (fun t s => ' ' :: (t.text ++ s)) s

theorem laid_spread {ts us : List Token} {s : List Char} (h : Laid us s) :
    Laid (ts ++ us) (spread ts s) := by
  induction ts with
  | nil => exact h
  | cons t ts ih => exact ih.of_text

theorem exists_laid (ts : List Token) : ∃ text, Laid ts (' ' :: text) := by
  have hlaid : Laid (ts ++ []) (spread ts []) := laid_spread (.nil (by simp))
  rw [List.append_nil] at hlaid
  exact ⟨_, hlaid.blank⟩

theorem exists_written {nodes : List Node} (h : ∀ node ∈ nodes, Expressible node) :
    ∃ text, Written nodes text := by
  obtain ⟨ts, hts⟩ := exists_each fun node hnode => exists_node (h node hnode)
  obtain ⟨text, htext⟩ := exists_laid ts
  exact ⟨text, ts, hts, htext⟩

end ThriftRpc.Idl.Grammar
