import ThriftRpc.Proofs.Idl.Expression

/-!
# Reading definitions

Fields, functions, members and texts come in lists that go through memos. The memo of the fields is
used again whenever a function is read a second time, so reading a function relies on that memo and
keeps it true; every other list leaves all memos but its own alone.
-/

namespace ThriftRpc.Idl.Parser

open Grammar
open Packrat (Memo)
open Text (Cursor)

variable {K : Set (Memos → Prop)} {src : List Char} {b : Nat} {us ts : List Token}

theorem maybe_reads {α : Type} {form : α → List Token → Prop} {p : Parser α} {o : Option α}
    (h : Maybe form o us)
    (hsome : ∀ {a us}, form a us → Reads K (At src b (us ++ ts)) p a (At src b ts))
    (hnone : Refuses K (At src b ts) p) :
    Reads K (At src b (us ++ ts)) (optional? p) o (At src b ts) := by
  cases h with
  | none => exact hnone.optional
  | some ha => exact (hsome ha).optional

theorem index_reads {index : Option Int64} (h : Maybe IndexForm index us)
    (hts : ∀ t ∈ ts.head?, t.numeral? = none) :
    Reads K (At src b (us ++ ts)) (optional? do let n ← integer; symbol ":"; return n) index
      (At src b ts) := by
  refine maybe_reads h ?_ (integer_refuses hts).bind
  rintro _ _ ⟨n⟩
  exact (integer_reads n).bind <| (symbol_reads .colon).bind <| Reads.pure n.value

theorem requiredness_reads {r : Option Requiredness} (h : Maybe RequirednessForm r us)
    (hreq : ts.head? ≠ some (.keyword .required)) (hopt : ts.head? ≠ some (.keyword .optional)) :
    Reads K (At src b (us ++ ts)) requiredness r (At src b ts) := by
  cases h with
  | none =>
    exact (keyword_refuses .required hreq).succeeds.bind <|
      (keyword_refuses .optional hopt).succeeds.bind <| Reads.pure none
  | some h =>
    cases h with
    | required => exact (keyword_reads .required).succeeds.bind <| Reads.pure _
    | optional =>
      exact (keyword_refuses .required (by simp)).succeeds.bind <|
        (keyword_reads .optional).succeeds.bind <| Reads.pure _

theorem default_reads {default : Option Const} (h : Maybe DefaultForm default us)
    (hts : Past 1 ts) :
    Reads K (At src b (us ++ ts)) (optional? do symbol "="; constant) default (At src b ts) := by
  refine maybe_reads h ?_ (symbol_refuses .equals (hts.head?_ne (by decide))).bind
  rintro _ _ ⟨hv⟩
  exact (symbol_reads .equals).bind (constant_reads hv)

theorem index_past {index : Option Int64} (h : Maybe IndexForm index us) : Past 3 us := by
  rcases h with _ | ⟨⟨n⟩⟩ <;> simp [stage]

theorem requiredness_past {r : Option Requiredness} (h : Maybe RequirednessForm r us) :
    Past 3 us := by
  rcases h with _ | ⟨⟨⟩ | ⟨⟩⟩ <;> simp [stage]

theorem requiredness_numeral? {r : Option Requiredness} {t : Ty} {vs : List Token}
    (h : Maybe RequirednessForm r us) (ht : TypeForm t vs) :
    ∀ x ∈ (us ++ (vs ++ ts)).head?, x.numeral? = none := by
  cases h with
  | none => exact fun x hx => (type_starts ht x hx).numeral?_eq
  | some h => cases h <;> simp [Token.numeral?]

theorem field_readsEach : ReadsEach K src FieldForm field where
  reads := by
    rintro _ _ ts b ⟨his, hrs, htype, hds, hann, hsep⟩ hts
    obtain ⟨hts₂, hts₁⟩ := tail_past hann hsep hts
    simp only [List.append_assoc, List.cons_append]
    exact (index_reads his (requiredness_numeral? hrs htype)).bind <|
      (requiredness_reads hrs (type_head?_ne htype (by simp))
        (type_head?_ne htype (by simp))).bind <|
      (type_reads htype (by simp [stage])).bind <| (identifier_reads _).bind <|
      (default_reads hds hts₁).bind <| (annotations_reads hann hts₂).bind <|
      (separator_reads hsep hts).bind <| Reads.pure _
  ne_nil := by
    rintro _ _ ⟨his, hrs, htype, hds, hann, hsep⟩
    simp
  past := by
    rintro _ _ ⟨his, hrs, htype, hds, hann, hsep⟩
    exact (index_past his).append ((requiredness_past hrs).append (type_past htype))

/-- No field begins with a symbol. -/
theorem field_refuses (x : Symbol) : Refuses K (At src b (.symbol x :: ts)) field :=
  Refuses.bind_right (index_reads .none (by simp [Token.numeral?])) <|
    Refuses.bind_right (requiredness_reads .none (by simp) (by simp)) (type_refuses x).bind

/-! ## The memos of the lists -/

def fieldPart : Part fieldSlot where
  get := Memos.fields
  set m x := { x with fields := m }

def functionPart : Part functionSlot where
  get := Memos.functions
  set m x := { x with functions := m }

def memberPart : Part memberSlot where
  get := Memos.members
  set m x := { x with members := m }

def literalPart : Part literalSlot where
  get := Memos.literals
  set m x := { x with literals := m }

/-- A text of an enum of texts, with its separator. -/
def textItem : Parser String := do
  let value ← literal
  separator
  return value

theorem literalList_eq :
    literalList = Packrat.apply literalSlot (oneMore literalSlot textItem (return [])) := by
  unfold literalList oneMore textItem
  simp only [bind_assoc, pure_bind]

abbrev FieldsSound (src : List Char) : Memo (List Field) → Prop :=
  Sound Set.univ field (do return [← field]) src

/-- The properties that rely on a true memo of the fields and not on what it holds. -/
def FieldsKept (src : List Char) : Set (Memos → Prop) :=
  {J | (∀ x, J x → FieldsSound src x.fields) ∧
    ∀ x m, J x → FieldsSound src m → J { x with fields := m }}

/-- Every memo is true. -/
structure AllSound (src : List Char) (x : Memos) : Prop where
  fields : FieldsSound src x.fields
  functions : Sound (FieldsKept src) function (do return [← function]) src x.functions
  members : Sound Set.univ enumMember (do return [← enumMember]) src x.members
  literals : Sound Set.univ textItem (return []) src x.literals

theorem fields_carries :
    Carries Set.univ field (do return [← field]) src fieldPart (FieldsKept src) where
  sound _ hJ := hJ.1
  renew _ hJ := hJ.2
  inner _ _ _ _ := Set.mem_univ _

theorem functions_carries :
    Carries (FieldsKept src) function (do return [← function]) src functionPart
      {AllSound src} where
  sound := by
    rintro _ rfl x hx
    exact hx.functions
  renew := by
    rintro _ rfl x m hx hm
    exact { hx with functions := hm }
  inner := by
    rintro _ rfl m m₁
    refine ⟨fun x hx => hx.2.fields, fun x m' hx hm' => ⟨hx.1, ?_⟩⟩
    exact { hx.2 with fields := hm' }

theorem members_carries :
    Carries Set.univ enumMember (do return [← enumMember]) src memberPart {AllSound src} where
  sound := by
    rintro _ rfl x hx
    exact hx.members
  renew := by
    rintro _ rfl x m hx hm
    exact { hx with members := hm }
  inner _ _ _ _ := Set.mem_univ _

theorem literals_carries :
    Carries Set.univ textItem (return []) src literalPart {AllSound src} where
  sound := by
    rintro _ rfl x hx
    exact hx.literals
  renew := by
    rintro _ rfl x m hx hm
    exact { hx with literals := hm }
  inner _ _ _ _ := Set.mem_univ _

theorem allSound_subset : ({AllSound src} : Set (Memos → Prop)) ⊆ FieldsKept src := by
  rintro _ rfl
  exact ⟨fun x hx => hx.fields, fun x m hx hm => { hx with fields := hm }⟩

/-- Fields up to a closing bracket. -/
theorem fields_reads {fs : List Field} {x : Symbol} (h : Each FieldForm fs us)
    (hx : 3 ≤ stage (.symbol x)) :
    Reads (FieldsKept src) (At src b (us ++ .symbol x :: ts)) fields fs
      (At src b (.symbol x :: ts)) := by
  obtain ⟨found, rfl, hreads⟩ := field_readsEach.itemList_reads (by simpa using hx)
    (field_refuses x) h fields_carries
  exact hreads.bind (Reads.pure _)

/-! ## Functions and members of enums -/

theorem oneway_reads {oneway : Bool} (h : OnewayForm oneway us)
    (hone : ts.head? ≠ some (.keyword .oneway)) (hasync : ts.head? ≠ some (.keyword .async)) :
    Reads K (At src b (us ++ ts)) (succeeds (firstOf [keyword "oneway", keyword "async"])) oneway
      (At src b ts) := by
  cases h with
  | twoway =>
    refine Refuses.succeeds (Declines.firstOf fun p hp => ?_).refuses
    simp only [List.mem_cons, List.not_mem_nil, or_false] at hp
    rcases hp with rfl | rfl
    · exact keyword_refuses .oneway hone
    · exact keyword_refuses .async hasync
  | oneway => exact Reads.succeeds (.firstOf_head (keyword_reads .oneway))
  | async =>
    exact Reads.succeeds <| .firstOf_tail (keyword_refuses .oneway (by simp)) <|
      .firstOf_head (keyword_reads .async)

theorem return_starts {r : Option Ty} (h : ReturnForm r us) :
    ∀ x ∈ (us ++ ts).head?, x = .keyword .void ∨ StartsType x := by
  cases h with
  | void =>
    rintro x ⟨⟩
    exact .inl rfl
  | type h => exact fun x hx => .inr (type_starts h x hx)

theorem return_head?_ne {r : Option Ty} (h : ReturnForm r us) {k : Keyword}
    (hk : k ∉ [Keyword.void, .list, .set, .map]) : (us ++ ts).head? ≠ some (.keyword k) := by
  rw [List.mem_cons, not_or] at hk
  intro hhead
  rcases return_starts h _ hhead with hvoid | hx
  · cases hvoid
    exact hk.1 rfl
  · exact hx.ne_keyword hk.2 rfl

theorem throws_reads {fs : List Field} (h : ThrowsForm fs us) (hts : Past 1 ts) :
    ∃ found : Option (List Field), found.getD [] = fs ∧
      Reads (FieldsKept src) (At src b (us ++ ts)) (optional? throwsClause) found
        (At src b ts) := by
  cases h with
  | absent =>
    exact ⟨none, rfl, (keyword_refuses .throws (hts.head?_ne (by decide))).bind.optional⟩
  | @present fs us hfields =>
    simp only [List.cons_append, List.append_assoc, List.nil_append]
    exact ⟨some fs, rfl, Reads.optional <| (keyword_reads .throws).bind <|
      (symbol_reads .openParen).bind <| (fields_reads hfields (by simp [stage])).bind <|
      (symbol_reads .closeParen).bind <| Reads.pure fs⟩

theorem function_past {f : Function} (h : FunctionForm f us) : Past 3 us := by
  obtain ⟨hone, hret, -, -, -, -⟩ := h
  cases hone with
  | twoway =>
    intro x hx
    rcases return_starts hret x hx with rfl | hx
    · simp [stage]
    · exact hx.stage_eq.ge
  | _ => simp [stage]

/-- What stands behind the type that a function returns. -/
def signature (oneway : Bool) (returns : Option Ty) : Parser Function := do
  let name ← identifier
  symbol "("
  let arguments ← fields
  symbol ")"
  let throws ← optional? throwsClause
  annotations
  separator
  return ⟨name, returns, arguments, throws.getD [], oneway⟩

theorem signature_reads {oneway : Bool} {returns : Option Ty} {n : Name}
    {arguments throws : List Field} {args ths ann sep : List Token}
    (hargs : Each FieldForm arguments args) (hthrows : ThrowsForm throws ths)
    (hann : AnnotationsForm ann) (hsep : SeparatorForm sep) (hts : Past 3 ts) :
    Reads (FieldsKept src) (At src b (.name n :: .symbol .openParen :: (args ++
      .symbol .closeParen :: (ths ++ (ann ++ (sep ++ ts)))))) (signature oneway returns)
      ⟨n.text, returns, arguments, throws, oneway⟩ (At src b ts) := by
  obtain ⟨hts₂, hts₁⟩ := tail_past hann hsep hts
  obtain ⟨found, rfl, hfound⟩ : ∃ found : Option (List Field), found.getD [] = throws ∧
      Reads (FieldsKept src) (At src b (ths ++ (ann ++ (sep ++ ts)))) (optional? throwsClause) found
        (At src b (ann ++ (sep ++ ts))) := throws_reads hthrows hts₁
  exact (identifier_reads n).bind <| (symbol_reads .openParen).bind <|
    (fields_reads hargs (by simp [stage])).bind <| (symbol_reads .closeParen).bind <|
    hfound.bind <| (annotations_reads hann hts₂).bind <| (separator_reads hsep hts).bind <|
    Reads.pure _

theorem function_readsEach : ReadsEach (FieldsKept src) src FunctionForm function where
  reads := by
    rintro _ _ ts b ⟨hone, hret, hargs, hthrows, hann, hsep⟩ hts
    simp only [List.append_assoc, List.cons_append]
    refine (oneway_reads hone (return_head?_ne hret (by simp))
      (return_head?_ne hret (by simp))).bind ?_
    cases hret with
    | void =>
      exact (keyword_reads .void).succeeds.bind <| (Reads.pure none).bind <|
        signature_reads hargs hthrows hann hsep hts
    | type ht =>
      exact (keyword_refuses .void (type_head?_ne ht (by simp))).succeeds.bind <|
        (type_reads ht (by simp [stage])).map.bind <|
        signature_reads hargs hthrows hann hsep hts
  ne_nil := by
    rintro _ _ ⟨hone, hret, hargs, hthrows, hann, hsep⟩
    simp
  past := function_past

theorem function_refuses (x : Symbol) : Refuses K (At src b (.symbol x :: ts)) function :=
  Refuses.bind_right (oneway_reads .twoway (by simp) (by simp)) <|
    Refuses.bind_right (keyword_refuses .void (by simp)).succeeds (type_refuses x).map.bind

theorem code_reads {code : Option Int64} (h : Maybe CodeForm code us) (hts : Past 1 ts) :
    Reads K (At src b (us ++ ts)) (optional? do symbol "="; integer) code (At src b ts) := by
  refine maybe_reads h ?_ (symbol_refuses .equals (hts.head?_ne (by decide))).bind
  rintro _ _ ⟨n⟩
  exact (symbol_reads .equals).bind (integer_reads n)

theorem member_readsEach : ReadsEach K src MemberForm enumMember where
  reads := by
    rintro _ _ ts b ⟨hcode, hann, hsep⟩ hts
    obtain ⟨hts₂, hts₁⟩ := tail_past hann hsep hts
    simp only [List.append_assoc, List.cons_append]
    exact (identifier_reads _).bind <| (code_reads hcode hts₁).bind <|
      (annotations_reads hann hts₂).bind <| (separator_reads hsep hts).bind <| Reads.pure _
  ne_nil := by
    rintro _ _ ⟨hvalue, hann, hsep⟩
    simp
  past := by
    rintro _ _ ⟨hvalue, hann, hsep⟩
    simp [stage]

theorem text_readsEach : ReadsEach K src TextForm textItem where
  reads := by
    rintro _ _ ts b ⟨l, hsep⟩ hts
    exact (literal_reads l).bind <| (separator_reads hsep hts).bind <| Reads.pure _
  ne_nil := by
    rintro _ _ ⟨l, hsep⟩
    simp
  past := by
    rintro _ _ ⟨l, hsep⟩
    simp [stage]

/-! ## Definitions -/

section Nodes

variable (n : Name)

theorem inclusion_reads (l : Literal) : Reads K (At src b (.keyword .inclusion :: .literal l :: ts))
    inclusion (.inclusion (String.ofList l.value)) (At src b ts) :=
  (keyword_reads .inclusion).bind <| (literal_reads l).bind <| Reads.pure _

theorem scope_reads {lang : Option String} (h : LanguageForm lang us) :
    Reads K (At src b (.keyword .scope :: (us ++ .name n :: ts))) scope (.scope lang n.text)
      (At src b ts) := by
  cases h with
  | all =>
    exact (keyword_reads .scope).bind <| (symbol_reads .star).succeeds.bind <|
      (Reads.pure none).bind <| (identifier_reads n).bind <| Reads.pure _
  | one m =>
    exact (keyword_reads .scope).bind <| (symbol_refuses .star (by simp)).succeeds.bind <|
      (identifier_reads m).map.bind <| (identifier_reads n).bind <| Reads.pure _

theorem constantDefinition_reads {t : Ty} {v : Const} {tys vs sep : List Token}
    (ht : TypeForm t tys) (hv : ConstForm v vs) (hsep : SeparatorForm sep) (hts : Past 3 ts) :
    Reads K (At src b (.keyword .constant :: (tys ++ .name n :: .symbol .equals ::
      (vs ++ (sep ++ ts))))) constantDefinition (.constant n.text t v) (At src b ts) :=
  (keyword_reads .constant).bind <| (type_reads ht (by simp [stage])).bind <|
    (identifier_reads n).bind <| (symbol_reads .equals).bind <| (constant_reads hv).bind <|
    (separator_reads hsep hts).bind <| Reads.pure _

theorem typedef_reads {t : Ty} {tys ann sep : List Token} (ht : TypeForm t tys)
    (hann : AnnotationsForm ann) (hsep : SeparatorForm sep) (hts : Past 3 ts) :
    Reads K (At src b (.keyword .typedef :: (tys ++ .name n :: (ann ++ (sep ++ ts))))) typedef
      (.typedef n.text t) (At src b ts) :=
  (keyword_reads .typedef).bind <| (type_reads ht (by simp [stage])).bind <|
    (identifier_reads n).bind <| (annotations_reads hann (tail_past hann hsep hts).1).bind <|
    (separator_reads hsep hts).bind <| Reads.pure _

theorem senum_reads {values : List String} {vs : List Token} (h : Each TextForm values vs) :
    Reads {AllSound src} (At src b (.keyword .senum :: .name n :: .symbol .openBrace ::
      (vs ++ .symbol .closeBrace :: ts))) senum (.senum n.text values) (At src b ts) := by
  have hstop : Refuses Set.univ (At src 0 (.symbol .closeBrace :: ts)) textItem :=
    (literal_refuses (by simp [Token.literal?])).bind
  have hlist : Reads {AllSound src} (At src b (vs ++ .symbol .closeBrace :: ts)) literalList values
      (At src b (.symbol .closeBrace :: ts)) := by
    rw [literalList_eq]
    exact text_readsEach.list_reads (by simp [stage]) hstop h literals_carries
      fun hchain => hchain.grown_nil
  exact (keyword_reads .senum).bind <| (identifier_reads n).bind <|
    (symbol_reads .openBrace).bind <| hlist.optional.bind <| (symbol_reads .closeBrace).bind <|
    Reads.pure _

theorem structKind_reads {kind : StructKind} {k : Keyword} (h : KindForm kind k) :
    Reads K (At src b (.keyword k :: ts)) structKind kind (At src b ts) := by
  cases h with
  | struct => exact (keyword_reads .struct).succeeds.bind <| Reads.pure _
  | union =>
    exact (keyword_refuses .struct (by simp)).succeeds.bind <| (keyword_reads .union).bind <|
      Reads.pure _

theorem everything_reads (h : EverythingForm us) (hts : ts.head? ≠ some (.keyword .everything)) :
    Reads K (At src b (us ++ ts)) (discard (succeeds (keyword "xsd_all"))) () (At src b ts) := by
  cases h with
  | absent => exact (keyword_refuses .everything hts).succeeds.discard
  | present => exact (keyword_reads .everything).succeeds.discard

theorem parent_reads {parent : Option String} (h : Maybe ParentForm parent us)
    (hts : ts.head? ≠ some (.keyword .parent)) :
    Reads K (At src b (us ++ ts)) (optional? do keyword "extends"; identifier) parent
      (At src b ts) := by
  refine maybe_reads h ?_ (keyword_refuses .parent hts).bind
  rintro _ _ ⟨m⟩
  exact (keyword_reads .parent).bind (identifier_reads m)

variable {ann : List Token} (hann : AnnotationsForm ann) (hts : Past 2 ts)

include hann hts

theorem enum_reads {members : List EnumMember} {ms : List Token}
    (h : Each MemberForm members ms) :
    Reads {AllSound src} (At src b (.keyword .enum :: .name n :: .symbol .openBrace ::
      (ms ++ .symbol .closeBrace :: (ann ++ ts)))) enum (.enum n.text members) (At src b ts) := by
  have hstop : Refuses Set.univ (At src 0 (.symbol .closeBrace :: (ann ++ ts))) enumMember :=
    (identifier_refuses (by simp [Token.word?])).bind
  obtain ⟨found, rfl, hlist⟩ := member_readsEach.itemList_reads (by simp [stage]) hstop h
    members_carries
  exact (keyword_reads .enum).bind <| (identifier_reads n).bind <|
    (symbol_reads .openBrace).bind <| hlist.bind <| (symbol_reads .closeBrace).bind <|
    (annotations_reads hann hts).bind <| Reads.pure _

theorem struct_reads {kind : StructKind} {k : Keyword} {fs : List Field} {es us : List Token}
    (hkind : KindForm kind k) (hes : EverythingForm es) (h : Each FieldForm fs us) :
    Reads {AllSound src} (At src b (.keyword k :: .name n :: (es ++ .symbol .openBrace ::
      (us ++ .symbol .closeBrace :: (ann ++ ts))))) struct (.struct kind n.text fs)
      (At src b ts) :=
  (structKind_reads hkind).bind <| (identifier_reads n).bind <|
    (everything_reads hes (by simp)).bind <| (symbol_reads .openBrace).bind <|
    ((fields_reads h (by simp [stage])).anti allSound_subset).bind <|
    (symbol_reads .closeBrace).bind <| (annotations_reads hann hts).bind <| Reads.pure _

theorem exception_reads {fs : List Field} {us : List Token} (h : Each FieldForm fs us) :
    Reads {AllSound src} (At src b (.keyword .exception :: .name n :: .symbol .openBrace ::
      (us ++ .symbol .closeBrace :: (ann ++ ts)))) exception (.exception n.text fs)
      (At src b ts) :=
  (keyword_reads .exception).bind <| (identifier_reads n).bind <|
    (symbol_reads .openBrace).bind <|
    ((fields_reads h (by simp [stage])).anti allSound_subset).bind <|
    (symbol_reads .closeBrace).bind <| (annotations_reads hann hts).bind <| Reads.pure _

theorem service_reads {parent : Option String} {fs : List Function} {ps us : List Token}
    (hparent : Maybe ParentForm parent ps) (h : Each FunctionForm fs us) :
    Reads {AllSound src} (At src b (.keyword .service :: .name n :: (ps ++ .symbol .openBrace ::
      (us ++ .symbol .closeBrace :: (ann ++ ts))))) service (.service n.text parent fs)
      (At src b ts) := by
  obtain ⟨found, rfl, hlist⟩ := function_readsEach.itemList_reads (by simp [stage])
    (function_refuses .closeBrace) h functions_carries
  exact (keyword_reads .service).bind <| (identifier_reads n).bind <|
    (parent_reads hparent (by simp)).bind <| (symbol_reads .openBrace).bind <| hlist.bind <|
    (symbol_reads .closeBrace).bind <| (annotations_reads hann hts).bind <| Reads.pure _

end Nodes

/-- The kinds of definitions in the order they are tried, and the words they begin with. -/
def openings : List (Parser Node × List Keyword) :=
  [(inclusion, [.inclusion]), (scope, [.scope]), (constantDefinition, [.constant]),
    (typedef, [.typedef]), (enum, [.enum]), (senum, [.senum]), (struct, [.struct, .union]),
    (exception, [.exception]), (service, [.service])]

theorem openings_disjoint :
    (openings.map Prod.snd).Pairwise fun ks ls => ∀ k ∈ ks, k ∉ ls := by
  decide

theorem openings_refuse {o : Parser Node × List Keyword} (ho : o ∈ openings) {k : Keyword}
    (hk : k ∉ o.2) : Refuses K (At src b (.keyword k :: ts)) o.1 := by
  simp only [openings, List.mem_cons, List.not_mem_nil, or_false] at ho
  rcases ho with rfl | rfl | rfl | rfl | rfl | rfl | rfl | rfl | rfl
  · exact (keyword_refuses .inclusion (by simpa using hk)).bind
  · exact (keyword_refuses .scope (by simpa using hk)).bind
  · exact (keyword_refuses .constant (by simpa using hk)).bind
  · exact (keyword_refuses .typedef (by simpa using hk)).bind
  · exact (keyword_refuses .enum (by simpa using hk)).bind
  · exact (keyword_refuses .senum (by simpa using hk)).bind
  · simp only [List.mem_cons, List.not_mem_nil, or_false, not_or] at hk
    exact (Refuses.bind_right (keyword_refuses .struct (by simpa using hk.1)).succeeds
      (keyword_refuses .union (by simpa using hk.2)).bind).bind
  · exact (keyword_refuses .exception (by simpa using hk)).bind
  · exact (keyword_refuses .service (by simpa using hk)).bind

/-- Alternatives with words of their own do not get in each other's way. -/
theorem firstOf_reads {os : List (Parser Node × List Keyword)} {p : Parser Node}
    {ks : List Keyword} {k : Keyword} {node : Node} {Q : Cursor → Prop}
    (hos : ∀ o ∈ os, k ∉ o.2 → Refuses K (At src b (.keyword k :: ts)) o.1)
    (hdisjoint : (os.map Prod.snd).Pairwise fun ks ls => ∀ k ∈ ks, k ∉ ls) (hp : (p, ks) ∈ os)
    (hk : k ∈ ks) (h : Reads K (At src b (.keyword k :: ts)) p node Q) :
    Reads K (At src b (.keyword k :: ts)) (firstOf (os.map Prod.fst)) node Q := by
  induction os with
  | nil => cases hp
  | cons o os ih =>
    rw [List.forall_mem_cons] at hos
    rw [List.map_cons, List.pairwise_cons] at hdisjoint
    rcases List.mem_cons.mp hp with rfl | hp
    · exact .firstOf_head h
    · have hother : k ∉ o.2 := fun hko =>
        hdisjoint.1 ks (List.mem_map_of_mem hp) k hko hk
      exact .firstOf_tail (hos.1 hother) (ih hos.2 hdisjoint.2 hp)

theorem definition_reads {node : Node} (h : NodeForm node us) (hts : Past 3 ts) :
    Reads {AllSound src} (At src b (us ++ ts)) definition node (At src b ts) := by
  have hchoose (i : Nat) {p : Parser Node} {ks : List Keyword} (hp : openings[i]? = some (p, ks))
      {k : Keyword} (hk : k ∈ ks) {us : List Token}
      (h : Reads {AllSound src} (At src b (.keyword k :: us)) p node (At src b ts)) :
      Reads {AllSound src} (At src b (.keyword k :: us)) definition node (At src b ts) :=
    firstOf_reads (fun _ ho hk => openings_refuse ho hk) openings_disjoint
      (List.mem_of_getElem? hp) hk h
  have hts₂ : Past 2 ts := hts.mono (by omega)
  cases h with
  | inclusion l => exact hchoose 0 rfl (by simp) (inclusion_reads l)
  | scope n hlang =>
    simp only [List.cons_append, List.append_assoc, List.nil_append]
    exact hchoose 1 rfl (by simp) (scope_reads n hlang)
  | constant n ht hv hsep =>
    simp only [List.cons_append, List.append_assoc]
    exact hchoose 2 rfl (by simp) (constantDefinition_reads n ht hv hsep hts)
  | typedef n ht hann hsep =>
    simp only [List.cons_append, List.append_assoc]
    exact hchoose 3 rfl (by simp) (typedef_reads n ht hann hsep hts)
  | enum n h hann =>
    simp only [List.cons_append, List.append_assoc]
    exact hchoose 4 rfl (by simp) (enum_reads n hann hts₂ h)
  | senum n h =>
    simp only [List.cons_append, List.append_assoc, List.nil_append]
    exact hchoose 5 rfl (by simp) (senum_reads n h)
  | struct n hkind hes h hann =>
    simp only [List.cons_append, List.append_assoc]
    refine hchoose 6 rfl ?_ (struct_reads n hann hts₂ hkind hes h)
    cases hkind <;> simp
  | exception n h hann =>
    simp only [List.cons_append, List.append_assoc]
    exact hchoose 7 rfl (by simp) (exception_reads n hann hts₂ h)
  | service n hparent h hann =>
    simp only [List.cons_append, List.append_assoc]
    exact hchoose 8 rfl (by simp) (service_reads n hann hts₂ hparent h)

end ThriftRpc.Idl.Parser
