import ThriftRpc.Proofs.Compile.WellOrdered

/-!
# Programs in another order

The order of a program decides whether it compiles, and not what it means: if two orders of one
program compile, then to schemas that differ in the order of their tables only (`compile_perm`). What
a written type denotes depends on the definitions alone (`Denotes`), and it is what the compiler
makes of that type wherever it stands.
-/

namespace ThriftRpc

namespace Schema

/-- The schemas have the same namespace, and the same definitions in some order. -/
structure Reorders (s t : Schema) : Prop where
  namespacePath : s.namespacePath = t.namespacePath
  structs : s.structs.Perm t.structs
  exceptions : s.exceptions.Perm t.exceptions
  enums : s.enums.Perm t.enums
  typedefs : s.typedefs.Perm t.typedefs
  constants : s.constants.Perm t.constants
  services : s.services.Perm t.services

/-- Every name is defined alike in both schemas. -/
structure Alike (s t : Schema) : Prop where
  namespacePath : s.namespacePath = t.namespacePath
  structs : ∀ name, s.structs.find? name = t.structs.find? name
  exceptions : ∀ name, s.exceptions.find? name = t.exceptions.find? name
  enums : ∀ name, s.enums.find? name = t.enums.find? name
  typedefs : ∀ name, s.typedefs.find? name = t.typedefs.find? name
  constants : ∀ name, s.constants.find? name = t.constants.find? name
  services : ∀ name, s.service? name = t.service? name

variable {s t : Schema}

theorem service?_eq_some_iff (hd : (s.services.map ServiceDef.name).Nodup) {name : String}
    {d : ServiceDef} : s.service? name = some d ↔ d ∈ s.services ∧ d.name = name := by
  unfold service?
  constructor
  · intro h
    exact ⟨List.mem_of_find?_eq_some h, by simpa using List.find?_some h⟩
  · rintro ⟨hd', rfl⟩
    obtain ⟨e, he⟩ : ∃ e, s.services.find? (fun e => e.name = d.name) = some e := by
      rw [← Option.isSome_iff_exists, List.find?_isSome]
      exact ⟨d, hd', decide_eq_true rfl⟩
    have hname : e.name = d.name := by simpa using List.find?_some he
    rw [he, List.inj_on_of_nodup_map hd (List.mem_of_find?_eq_some he) hd' hname]

/-- Under distinct names the order of the tables does not show. -/
theorem Reorders.alike (h : s.Reorders t) (hnames : s.definedNames.Nodup) : s.Alike t := by
  unfold definedNames at hnames
  simp only [List.nodup_append] at hnames
  obtain ⟨⟨⟨⟨⟨hstructs, hexceptions, -⟩, henums, -⟩, htypedefs, -⟩, hconstants, -⟩, hservices, -⟩ :=
    hnames
  refine ⟨h.namespacePath, Table.find?_perm h.structs hstructs,
    Table.find?_perm h.exceptions hexceptions, Table.find?_perm h.enums henums,
    Table.find?_perm h.typedefs htypedefs, Table.find?_perm h.constants hconstants, fun name => ?_⟩
  have hservices' : (t.services.map ServiceDef.name).Nodup :=
    (h.services.map _).nodup_iff.mp hservices
  refine Option.ext fun d => ?_
  rw [service?_eq_some_iff hservices, service?_eq_some_iff hservices', h.services.mem_iff]

end Schema

namespace Compile

open Files (Path)
open Idl (Field Function Node)

variable {nodes nodes' : List Node} {s t : Schema} {name : String} {n : Node}

/-! ## What types denote -/

/-- What a written type denotes where `nodes` are defined, in whichever order. -/
inductive Denotes (nodes : List Node) : Ty → Ty → Prop
  | prim (p : Primitive) : Denotes nodes (.prim p) (.prim p)
  | definition {n : Node} {name : String} : n ∈ nodes → typeName? n = some name →
    alias? n = none → Denotes nodes (.named name) (.named name)
  | typedef {n : Node} {name : String} {target ty : Ty} : n ∈ nodes →
    alias? n = some (name, target) → Denotes nodes target ty → Denotes nodes (.named name) ty
  | qualified {name : String} {ty : Ty} : name.toList.contains '.' = true →
    Denotes nodes (.named (Text.lastSegment name)) ty → Denotes nodes (.named name) ty
  | list {elem ty : Ty} : Denotes nodes elem ty → Denotes nodes (.list elem) (.list ty)
  | set {elem ty : Ty} : Denotes nodes elem ty → Denotes nodes (.set elem) (.set ty)
  | map {key value k v : Ty} : Denotes nodes key k → Denotes nodes value v →
    Denotes nodes (.map key value) (.map k v)

/-- No definition has a dot in its name. -/
def Undotted (nodes : List Node) : Prop :=
  ∀ n ∈ nodes, ∀ name ∈ n.definedName?, name.toList.contains '.' = false

theorem Denotes.subset (h : nodes ⊆ nodes') {written ty : Ty} (hd : Denotes nodes written ty) :
    Denotes nodes' written ty := by
  induction hd with
  | prim p => exact .prim p
  | definition hn hname halias => exact .definition (h hn) hname halias
  | typedef hn halias _ ih => exact .typedef (h hn) halias ih
  | qualified hdot _ ih => exact .qualified hdot ih
  | list _ ih => exact .list ih
  | set _ ih => exact .set ih
  | map _ _ ihk ihv => exact .map ihk ihv

theorem definedName?_of_typeName? (h : typeName? n = some name) : n.definedName? = some name := by
  cases n <;> first | exact h | cases h

theorem definedName?_of_alias? {target : Ty} (h : alias? n = some (name, target)) :
    n.definedName? = some name := by
  cases n <;> cases h <;> rfl

/-- Where names are distinct, a type denotes one type. -/
theorem Denotes.unique (hnames : (nodes.filterMap (·.definedName?)).Nodup)
    (hdots : Undotted nodes) {written a b : Ty} (ha : Denotes nodes written a)
    (hb : Denotes nodes written b) : a = b := by
  induction ha generalizing b with
  | prim p => cases hb; rfl
  | definition hn hname halias =>
    have hdefined := definedName?_of_typeName? hname
    cases hb with
    | definition hm hname' halias' => rfl
    | typedef hm halias' hb =>
      have hsame := eq_of_nodup_filterMap hnames hn hm hdefined (definedName?_of_alias? halias')
      rw [← hsame, halias] at halias'
      cases halias'
    | qualified hdot hb =>
      rw [hdots _ hn _ hdefined] at hdot
      cases hdot
  | typedef hn halias _ ih =>
    have hdefined := definedName?_of_alias? halias
    cases hb with
    | definition hm hname' halias' =>
      have hsame := eq_of_nodup_filterMap hnames hn hm hdefined (definedName?_of_typeName? hname')
      rw [← hsame, halias] at halias'
      cases halias'
    | typedef hm halias' hb =>
      have hsame := eq_of_nodup_filterMap hnames hn hm hdefined (definedName?_of_alias? halias')
      rw [← hsame, halias] at halias'
      cases halias'
      exact ih hb
    | qualified hdot hb =>
      rw [hdots _ hn _ hdefined] at hdot
      cases hdot
  | qualified hdot _ ih =>
    cases hb with
    | definition hm hname' halias' =>
      rw [hdots _ hm _ (definedName?_of_typeName? hname')] at hdot
      cases hdot
    | typedef hm halias' hb =>
      rw [hdots _ hm _ (definedName?_of_alias? halias')] at hdot
      cases hdot
    | qualified _ hb => exact ih hb
  | list _ ih =>
    cases hb with
    | list hb => rw [ih hb]
  | set _ ih =>
    cases hb with
    | set hb => rw [ih hb]
  | map _ _ ihk ihv =>
    cases hb with
    | map hk hv => rw [ihk hk, ihv hv]

/-- The types of the schema are among `nodes`, and its aliases have the targets they denote. -/
structure Faithful (nodes : List Node) (s : Schema) : Prop where
  aliases : ∀ e ∈ s.typedefs, Denotes nodes (.named e.1) e.2
  defined : ∀ name, (s.lookup name).isSome = true →
    ∃ n ∈ nodes, typeName? n = some name ∧ alias? n = none

theorem Means.denotes (h : Faithful nodes s) {ty : Ty} (hm : Means s name ty) :
    Denotes nodes (.named name) ty := by
  rcases hm with halias | ⟨hdefined, rfl⟩
  · exact h.aliases _ (Table.mem_of_find? halias)
  · obtain ⟨n, hn, hname, halias⟩ := h.defined name hdefined
    exact .definition hn hname halias

theorem Stands.denotes (h : Faithful nodes s) {written ty : Ty} (hs : Stands s written ty) :
    Denotes nodes written ty := by
  induction hs with
  | prim p => exact .prim p
  | named hm => exact hm.denotes h
  | qualified hdot hm => exact .qualified hdot (hm.denotes h)
  | list _ ih => exact .list ih
  | set _ ih => exact .set ih
  | map _ _ ihk ihv => exact .map ihk ihv

/-- An alias is entered with what its written target denotes. -/
theorem Faithful.addAlias (h : Faithful nodes s) (hn : n ∈ nodes) {target ty : Ty}
    (halias : alias? n = some (name, target)) (hs : Stands s target ty) :
    Faithful nodes { s with typedefs := s.typedefs.insert name ty } where
  aliases := by
    intro e he
    rcases Table.mem_insert he with rfl | he
    · exact .typedef hn halias (hs.denotes h)
    · exact h.aliases e he
  defined := h.defined

theorem Faithful.addDefinition (h : Faithful nodes s) (hn : n ∈ nodes)
    (hname : typeName? n = some name) (halias : alias? n = none)
    (htypedefs : t.typedefs = s.typedefs)
    (hlookup : ∀ k, (t.lookup k).isSome = true → (s.lookup k).isSome = true ∨ k = name) :
    Faithful nodes t where
  aliases := by
    rw [htypedefs]
    exact h.aliases
  defined := by
    intro k hk
    rcases hlookup k hk with hk | rfl
    · exact h.defined k hk
    · exact ⟨n, hn, hname, halias⟩

theorem addNode_faithful {language : String} (h : Faithful nodes s) (hn : n ∈ nodes)
    (hadd : addNode language s n = .ok t) : Faithful nodes t := by
  cases n with
  | comment text => cases hadd; exact h
  | scope lang name =>
    rw [addNode] at hadd
    split at hadd
    · cases hadd; exact ⟨h.aliases, h.defined⟩
    · cases hadd; exact h
  | inclusion path => cases hadd; exact h
  | constant name type value =>
    obtain ⟨ty, -, hadd⟩ := bind_eq_ok hadd
    cases hadd
    exact ⟨h.aliases, h.defined⟩
  | typedef name target =>
    obtain ⟨ty, hty, hadd⟩ := bind_eq_ok hadd
    cases hadd
    exact h.addAlias hn rfl (resolveType_stands hty)
  | enum name members =>
    cases hadd
    refine h.addDefinition hn rfl rfl rfl fun k hk => ?_
    rw [isSome_lookup, mem_keys_insert] at hk
    rw [isSome_lookup]
    tauto
  | senum name values => cases hadd; exact h.addAlias hn rfl (.prim .string)
  | struct kind name fields =>
    obtain ⟨defs, -, hadd⟩ := bind_eq_ok hadd
    cases hadd
    refine h.addDefinition hn rfl rfl rfl fun k hk => ?_
    rw [isSome_lookup, mem_keys_insert] at hk
    rw [isSome_lookup]
    tauto
  | exception name fields =>
    obtain ⟨defs, -, hadd⟩ := bind_eq_ok hadd
    cases hadd
    refine h.addDefinition hn rfl rfl rfl fun k hk => ?_
    rw [isSome_lookup, mem_keys_insert] at hk
    rw [isSome_lookup]
    tauto
  | service name parent functions =>
    obtain ⟨defs, -, hadd⟩ := bind_eq_ok hadd
    cases hadd
    exact ⟨h.aliases, h.defined⟩

/-- The name of a namespace that counts for the language. -/
def scope? (language : String) : Node → Option String
  | .scope lang name => if lang.all (· = language) then some name else none
  | _ => none

/-- The segments of the last namespace that counts. -/
def namespaceOf (language : String) (nodes : List Node) : List String :=
  (nodes.filterMap (scope? language)).foldl (fun _ name => Text.nameSegments name) []

theorem addNode_namespacePath {language : String} (hadd : addNode language s n = .ok t) :
    t.namespacePath = ((scope? language n).map Text.nameSegments).getD s.namespacePath := by
  cases n with
  | scope lang name =>
    rw [addNode] at hadd
    rw [scope?]
    split at hadd
    · next hlang => cases hadd; rw [if_pos hlang]; rfl
    · next hlang => cases hadd; rw [if_neg hlang]; rfl
  | comment text => cases hadd; rfl
  | inclusion path => cases hadd; rfl
  | enum name members => cases hadd; rfl
  | senum name values => cases hadd; rfl
  | constant name type value => obtain ⟨ty, -, hadd⟩ := bind_eq_ok hadd; cases hadd; rfl
  | typedef name target => obtain ⟨ty, -, hadd⟩ := bind_eq_ok hadd; cases hadd; rfl
  | struct kind name fields => obtain ⟨defs, -, hadd⟩ := bind_eq_ok hadd; cases hadd; rfl
  | exception name fields => obtain ⟨defs, -, hadd⟩ := bind_eq_ok hadd; cases hadd; rfl
  | service name parent functions => obtain ⟨defs, -, hadd⟩ := bind_eq_ok hadd; cases hadd; rfl

theorem namespaceOf_append (language : String) (nodes : List Node) (n : Node) :
    namespaceOf language (nodes ++ [n]) =
      ((scope? language n).map Text.nameSegments).getD (namespaceOf language nodes) := by
  unfold namespaceOf
  rw [List.filterMap_append, List.foldl_append]
  cases hn : scope? language n with
  | none => rw [List.filterMap_cons_none hn]; rfl
  | some name => rw [List.filterMap_cons_some hn]; rfl

theorem namespaceOf_perm {language : String} (h : nodes.Perm nodes')
    (hone : (nodes.filterMap (scope? language)).length ≤ 1) :
    namespaceOf language nodes = namespaceOf language nodes' := by
  unfold namespaceOf
  rw [eq_of_perm_of_length_le_one (h.filterMap _) hone]

/-! ## Compiled schemas -/

section Compiled

variable {config : Config} {library library' : Library} {root root' : Option Path}

/-- What the schema of a program without includes takes over from it. -/
structure Renders (language : String) (nodes : List Node) (s : Schema) : Prop where
  namespacePath : s.namespacePath = namespaceOf language nodes
  declares : Declares s nodes s
  faithful : Faithful nodes s

theorem compile_renders (hstays : ∀ n ∈ nodes, Stays n)
    (h : compile config library root nodes = .ok s) : Renders config.language nodes s := by
  have hdeclares : Declares s nodes s := by
    obtain ⟨program, hprogram, hdeclares, -⟩ := compile_closed h
    rw [expand_of_stays hstays] at hprogram
    cases hprogram
    rw [List.map_map] at hdeclares
    rwa [List.map_id''] at hdeclares
    exact fun _ => rfl
  rw [compile_of_stays hstays] at h
  obtain ⟨⟨⟩, -, h⟩ := bind_eq_ok h
  have hstart : Faithful nodes {} := ⟨fun _ he => (nomatch he), fun _ hk => nomatch hk⟩
  have hrun := foldlM_eq_ok
    (fun before s => s.namespacePath = namespaceOf config.language before ∧ Faithful nodes s)
    ⟨rfl, hstart⟩ ?_ h
  · exact ⟨hrun.1, hdeclares, hrun.2⟩
  · rintro before n after s t rfl ⟨hpath, hfaithful⟩ hadd
    have hn : n ∈ before ++ n :: after := List.mem_append_right _ List.mem_cons_self
    refine ⟨?_, addNode_faithful hfaithful hn hadd⟩
    rw [addNode_namespacePath hadd, namespaceOf_append, hpath]

end Compiled

/-- What a written type stands for is the same in both schemas. -/
def Concur (s t : Schema) : Prop := ∀ written a b, Stands s written a → Stands t written b → a = b

theorem Faithful.concur (hs : Faithful nodes s) (ht : Faithful nodes' t) (hsubset : nodes' ⊆ nodes)
    (hnames : (nodes.filterMap (·.definedName?)).Nodup) (hdots : Undotted nodes) : Concur s t :=
  fun _ _ _ ha hb => (ha.denotes hs).unique hnames hdots ((hb.denotes ht).subset hsubset)

theorem FieldOf.unique (h : Concur s t) {f : Field × Nat} {d e : FieldDef} (hd : FieldOf s f d)
    (he : FieldOf t f e) : d = e := by
  have hindex : d.index = e.index := Int16.toInt_inj.mp (hd.index.trans he.index.symm)
  have hname : d.name = e.name := hd.name.trans he.name.symm
  have htype : d.type = e.type := h _ _ _ hd.type he.type
  have hdefault : d.default = e.default := hd.default.trans he.default.symm
  have hrequiredness : d.requiredness = e.requiredness := hd.requiredness.trans he.requiredness.symm
  cases d
  cases e
  simp only [FieldDef.mk.injEq]
  exact ⟨hindex, hname, htype, hdefault, hrequiredness⟩

theorem FieldsOf.unique (h : Concur s t) {fields : List Field} {ds es : List FieldDef}
    (hd : FieldsOf s fields ds) (he : FieldsOf t fields es) : ds = es :=
  eq_of_forall₂ (fun _ _ _ hd he => hd.unique h he) hd.declared he.declared

theorem StructOf.unique (h : Concur s t) {written : StructKind × String × List Field}
    {d e : String × StructDef} (hd : StructOf s written d) (he : StructOf t written e) : d = e := by
  have hmap (fields : Table Int16 FieldDef) (hkeyed : ∀ f ∈ fields, f.1 = f.2.index) :
      fields = (fields.map Prod.snd).map fun f => (f.index, f) := by
    rw [List.map_map]
    refine (List.map_id _).symm.trans (List.map_congr_left fun f hf => ?_)
    exact Prod.ext (hkeyed f hf) rfl
  have hkey : d.1 = e.1 := hd.key.trans he.key.symm
  have hname : d.2.name = e.2.name := hd.name.trans he.name.symm
  have hkind : d.2.kind = e.2.kind := hd.kind.trans he.kind.symm
  have hfields : d.2.fields = e.2.fields := by
    rw [hmap _ hd.keyed, hmap _ he.keyed, hd.fields.unique h he.fields]
  obtain ⟨_, _, _, _⟩ := d
  obtain ⟨_, _, _, _⟩ := e
  simp only [Prod.mk.injEq, StructDef.mk.injEq]
  exact ⟨hkey, hname, hkind, hfields⟩

theorem FunctionOf.unique (h : Concur s t) {written : Function} {d e : FunctionDef}
    (hd : FunctionOf s written d) (he : FunctionOf t written e) : d = e := by
  have hname : d.name = e.name := hd.name.trans he.name.symm
  have honeway : d.oneway = e.oneway := hd.oneway.trans he.oneway.symm
  have harguments : d.arguments = e.arguments := hd.arguments.unique h he.arguments
  have hthrows : d.throws = e.throws := hd.throws.unique h he.throws
  have hreturns : d.returns = e.returns := by
    have hds := hd.returns
    have hes := he.returns
    generalize written.returns = a, d.returns = b, e.returns = c at hds hes
    cases hds with
    | none => cases hes; rfl
    | some hb =>
      cases hes with
      | some hc => rw [h _ _ _ hb hc]
  cases d
  cases e
  simp only [FunctionDef.mk.injEq]
  exact ⟨hname, hreturns, harguments, hthrows, honeway⟩

theorem ServiceOf.unique (h : Concur s t) {written : String × Option String × List Function}
    {d e : ServiceDef} (hd : ServiceOf s written d) (he : ServiceOf t written e) : d = e := by
  have hname : d.name = e.name := hd.name.trans he.name.symm
  have hparent : d.parent = e.parent := hd.parent.trans he.parent.symm
  have hfunctions : d.functions = e.functions :=
    eq_of_forall₂ (fun _ _ _ hd he => hd.unique h he) hd.functions he.functions
  cases d
  cases e
  simp only [ServiceDef.mk.injEq]
  exact ⟨hname, hparent, hfunctions⟩

/-! ## Two orders -/

theorem Renders.reorders {language : String} (hs : Renders language nodes s)
    (ht : Renders language nodes' t) (hperm : nodes.Perm nodes')
    (hnames : (nodes.filterMap (·.definedName?)).Nodup) (hdots : Undotted nodes)
    (hone : (nodes.filterMap (scope? language)).length ≤ 1) : s.Reorders t := by
  have h : Concur s t := hs.faithful.concur ht.faithful hperm.symm.subset hnames hdots
  refine ⟨?_, ?_, ?_, ?_, ?_, ?_, ?_⟩
  · rw [hs.namespacePath, ht.namespacePath, namespaceOf_perm hperm hone]
  · exact perm_of_forall₂ (fun _ _ _ hd he => hd.unique h he) hs.declares.structs
      (hperm.filterMap _) ht.declares.structs
  · exact perm_of_forall₂ (fun _ _ _ hd he => hd.unique h he) hs.declares.exceptions
      (hperm.filterMap _) ht.declares.exceptions
  · rw [hs.declares.enums, ht.declares.enums]
    exact (hperm.filterMap _).map _
  · refine perm_of_forall₂ ?_ hs.declares.aliases (hperm.filterMap _) ht.declares.aliases
    rintro written d e ⟨hdname, hd⟩ ⟨hename, he⟩
    exact Prod.ext (hdname.trans hename.symm) (h _ _ _ hd he)
  · refine perm_of_forall₂ ?_ hs.declares.constants (hperm.filterMap _) ht.declares.constants
    rintro written ⟨_, _, _⟩ ⟨_, _, _⟩ ⟨hdname, hd, hdvalue⟩ ⟨hename, he, hevalue⟩
    simp only [Prod.mk.injEq, ConstantDef.mk.injEq]
    exact ⟨hdname.trans hename.symm, h _ _ _ hd he, hdvalue.trans hevalue.symm⟩
  · exact perm_of_forall₂ (fun _ _ _ hd he => hd.unique h he) hs.declares.services
      (hperm.filterMap _) ht.declares.services

/-- Two orders of a program without includes mean the same if they both compile, given that no
definition has a dot in its name and that one namespace counts at most. -/
theorem compile_perm {config : Config} {library library' : Library} {root root' : Option Path}
    (hperm : nodes.Perm nodes') (hstays : ∀ n ∈ nodes, Stays n) (hdots : Undotted nodes)
    (hone : (nodes.filterMap (scope? config.language)).length ≤ 1)
    (hs : compile config library root nodes = .ok s)
    (ht : compile config library' root' nodes' = .ok t) : s.Reorders t ∧ s.Alike t := by
  have hordered : WellOrdered nodes := (exists_compile_iff config library root hstays).mp ⟨s, hs⟩
  have hnames : (nodes.filterMap (·.definedName?)).Nodup := by
    simpa only [definedName?_eq] using hordered.names
  have hstays' : ∀ n ∈ nodes', Stays n := fun n hn => hstays n (hperm.mem_iff.mpr hn)
  have hreorders : s.Reorders t := (compile_renders hstays hs).reorders (compile_renders hstays' ht)
    hperm hnames hdots hone
  obtain ⟨-, -, -, hclosed, -⟩ := compile_closed hs
  exact ⟨hreorders, hreorders.alike hclosed.names⟩

/-- The program `treeProgram` behind a namespace. -/
def gardenProgram : List Node := .scope (some "rs") "garden" :: treeProgram

/-- The same with the exception in front and the namespace before the service. -/
def gardenProgram' : List Node :=
  (treeProgram.drop 2).take 1 ++ treeProgram.take 2 ++ .scope (some "rs") "garden" ::
    treeProgram.drop 3

theorem compile_perm_garden : ∃ s t,
    compile {} (.listed []) none gardenProgram = .ok s ∧
    compile {} (.listed []) none gardenProgram' = .ok t ∧ s.Reorders t ∧ s.Alike t := by
  have hperm : gardenProgram.Perm gardenProgram' := by
    have htree : treeProgram.Perm
        ((treeProgram.drop 2).take 1 ++ treeProgram.take 2 ++ treeProgram.drop 3) := by
      show (treeProgram.take 2 ++ (treeProgram.drop 2).take 1 ++ treeProgram.drop 3).Perm _
      exact List.perm_append_comm.append_right _
    exact (htree.cons _).trans List.perm_middle.symm
  have hstays : ∀ n ∈ gardenProgram, Stays n := by simp [gardenProgram, treeProgram, Stays]
  have hdots : Undotted gardenProgram := by
    unfold Undotted gardenProgram treeProgram
    decide +kernel
  have hone : (gardenProgram.filterMap (scope? "rs")).length ≤ 1 := by decide
  obtain ⟨s, hs⟩ : ∃ s, compile {} (.listed []) none gardenProgram = .ok s := ⟨_, rfl⟩
  obtain ⟨t, ht⟩ : ∃ t, compile {} (.listed []) none gardenProgram' = .ok t := ⟨_, rfl⟩
  exact ⟨s, t, hs, ht, compile_perm hperm hstays hdots hone hs ht⟩

end Compile

end ThriftRpc
