import ThriftRpc.Compile.Basic
import ThriftRpc.Proofs.Codec.Regular
import ThriftRpc.Proofs.Compile.Declares

/-!
# Compiled schemas are closed

A compiled schema holds what the program declares, under distinct names, and all names in its types
are definitions of its own (`Closed`). The invariant of the build (`Built`) says so of every schema
on the way; that targets of aliases have no alias in them is part of it, since a later alias copies
them.
-/

namespace ThriftRpc

/-- The types in a type, itself included. -/
def Ty.parts : Ty → List Ty
  | prim p => [prim p]
  | named name => [named name]
  | list elem => list elem :: elem.parts
  | set elem => set elem :: elem.parts
  | map key value => map key value :: (key.parts ++ value.parts)

def FunctionDef.types (f : FunctionDef) : List Ty :=
  f.returns.toList ++ f.arguments.map FieldDef.type ++ f.throws.map FieldDef.type

namespace Schema

def functions (s : Schema) : List FunctionDef := s.services.flatMap ServiceDef.functions

/-- The types of fields, functions, aliases and constants. -/
def types (s : Schema) : List Ty :=
  s.structDefs.flatMap (fun d => d.fieldDefs.map FieldDef.type) ++
    s.functions.flatMap FunctionDef.types ++ s.typedefs.map Prod.snd ++
    s.constants.map fun e => e.2.type

/-- Every name in the type is a definition. -/
def Grounds (s : Schema) (ty : Ty) : Prop := ∀ name ∈ ty.names, (s.lookup name).isSome = true

end Schema

namespace Compile

/-- Definitions bear distinct names, fields distinct indices and names, and every name in a type is
a definition and no alias. -/
structure Closed (s : Schema) : Prop where
  names : s.definedNames.Nodup
  structs : ∀ e ∈ s.structs ++ s.exceptions, e.1 = e.2.name
  enums : ∀ e ∈ s.enums, e.1 = e.2.name
  keyed : ∀ d ∈ s.structDefs, ∀ e ∈ d.fields, e.1 = e.2.index
  fields : ∀ d ∈ s.structDefs, FieldsApart d.fieldDefs
  functions : ∀ f ∈ s.functions, FieldsApart f.arguments ∧ FieldsApart f.throws
  types : ∀ ty ∈ s.types, ∀ name ∈ ty.names,
    (s.lookup name).isSome = true ∧ s.typedefs.find? name = none

variable {s t u : Schema}

theorem Extends.grounds (h : Extends s t) {ty : Ty} (hg : s.Grounds ty) : t.Grounds ty :=
  fun name hn => h.defined (hg name hn)

theorem Means.grounds (htargets : ∀ e ∈ s.typedefs, s.Grounds e.2) {name : String} {ty : Ty}
    (h : Means s name ty) : s.Grounds ty := by
  rcases h with htarget | ⟨hdefined, rfl⟩
  · exact htargets _ (Table.mem_of_find? htarget)
  · intro n hn
    rw [List.mem_singleton.mp hn]
    exact hdefined

theorem Stands.grounds (htargets : ∀ e ∈ s.typedefs, s.Grounds e.2) {written ty : Ty}
    (h : Stands s written ty) : s.Grounds ty := by
  induction h with
  | prim p => exact fun _ hn => nomatch hn
  | named hm => exact hm.grounds htargets
  | qualified _ hm => exact hm.grounds htargets
  | list _ ih => exact ih
  | set _ ih => exact ih
  | map _ _ ihk ihv =>
    intro name hn
    rcases List.mem_append.mp hn with hn | hn
    · exact ihk name hn
    · exact ihv name hn

theorem grounds_of_parts {ty part : Ty} (h : s.Grounds ty) (hp : part ∈ ty.parts) :
    s.Grounds part := by
  induction ty with
  | prim p => rwa [List.mem_singleton.mp hp]
  | named name => rwa [List.mem_singleton.mp hp]
  | list elem ih =>
    rcases List.mem_cons.mp hp with rfl | hp
    · exact h
    · exact ih h hp
  | set elem ih =>
    rcases List.mem_cons.mp hp with rfl | hp
    · exact h
    · exact ih h hp
  | map key value ihk ihv =>
    rcases List.mem_cons.mp hp with rfl | hp
    · exact h
    · rcases List.mem_append.mp hp with hp | hp
      · exact ihk (fun n hn => h n (List.mem_append_left _ hn)) hp
      · exact ihv (fun n hn => h n (List.mem_append_right _ hn)) hp

/-- A type without aliases resolves, however many aliases may be followed. -/
theorem resolveWithin_of_grounds {ty : Ty} (h : s.Grounds ty) :
    ∃ shape, ∀ hops, Codec.resolveWithin s hops ty = .ok shape := by
  cases ty with
  | named name =>
    obtain ⟨c, hc⟩ := Option.isSome_iff_exists.mp (h name List.mem_cons_self)
    exact ⟨c.shape, fun hops => Codec.resolveWithin_of_lookup hc⟩
  | prim p => exact ⟨.prim p, fun hops => by unfold Codec.resolveWithin; rfl⟩
  | list elem => exact ⟨.list elem, fun hops => by unfold Codec.resolveWithin; rfl⟩
  | set elem => exact ⟨.set elem, fun hops => by unfold Codec.resolveWithin; rfl⟩
  | map key value => exact ⟨.map key value, fun hops => by unfold Codec.resolveWithin; rfl⟩

/-! ## Declared schemas -/

section Declared

variable {nodes : List Idl.Node}

theorem FieldsOf.stands {fields : List Idl.Field} {defs : List FieldDef}
    (h : FieldsOf s fields defs) {ty : Ty} (hty : ty ∈ defs.map FieldDef.type) :
    ∃ written, Stands s written ty := by
  obtain ⟨d, hd, rfl⟩ := List.mem_map.mp hty
  obtain ⟨f, -, hf⟩ := exists_of_mem_right h.declared hd
  exact ⟨f.1.type, hf.type⟩

theorem Declares.structOf (h : Declares s nodes s) {d : StructDef} (hd : d ∈ s.structDefs) :
    ∃ name written, StructOf s written (name, d) := by
  unfold Schema.structDefs at hd
  rcases List.mem_append.mp hd with hd | hd
  · obtain ⟨e, he, rfl⟩ := List.mem_map.mp hd
    obtain ⟨written, -, hs⟩ := exists_of_mem_right h.structs he
    exact ⟨e.1, written, hs⟩
  · obtain ⟨e, he, rfl⟩ := List.mem_map.mp hd
    obtain ⟨written, -, hs⟩ := exists_of_mem_right h.exceptions he
    exact ⟨e.1, written, hs⟩

theorem Declares.functionOf (h : Declares s nodes s) {f : FunctionDef} (hf : f ∈ s.functions) :
    ∃ written, FunctionOf s written f := by
  obtain ⟨d, hd, hf⟩ := List.mem_flatMap.mp hf
  obtain ⟨service, -, hservice⟩ := exists_of_mem_right h.services hd
  obtain ⟨written, -, hfunction⟩ := exists_of_mem_right hservice.functions hf
  exact ⟨written, hfunction⟩

theorem FunctionOf.stands {written : Idl.Function} {f : FunctionDef} (h : FunctionOf s written f)
    {ty : Ty} (hty : ty ∈ f.types) : ∃ written, Stands s written ty := by
  unfold FunctionDef.types at hty
  rcases List.mem_append.mp hty with hty | hty
  · rcases List.mem_append.mp hty with hty | hty
    · have hreturns := h.returns
      rw [Option.mem_toList.mp hty] at hreturns
      generalize written.returns = a at hreturns
      cases hreturns with
      | some hr => exact ⟨_, hr⟩
    · exact h.arguments.stands hty
  · exact h.throws.stands hty

/-- Every type of a schema stands for one that was written. -/
theorem Declares.stands (h : Declares s nodes s) {ty : Ty} (hty : ty ∈ s.types) :
    ∃ written, Stands s written ty := by
  unfold Schema.types at hty
  simp only [List.mem_append] at hty
  rcases hty with ((hty | hty) | hty) | hty
  · obtain ⟨d, hd, hty⟩ := List.mem_flatMap.mp hty
    obtain ⟨name, written, hs⟩ := h.structOf hd
    exact hs.fields.stands hty
  · obtain ⟨f, hf, hty⟩ := List.mem_flatMap.mp hty
    obtain ⟨written, hs⟩ := h.functionOf hf
    exact hs.stands hty
  · obtain ⟨e, he, rfl⟩ := List.mem_map.mp hty
    obtain ⟨written, -, -, hs⟩ := exists_of_mem_right h.aliases he
    exact ⟨written.2, hs⟩
  · obtain ⟨e, he, rfl⟩ := List.mem_map.mp hty
    obtain ⟨written, -, -, hs, -⟩ := exists_of_mem_right h.constants he
    exact ⟨written.2.1, hs⟩

end Declared

/-! ## The build -/

/-- What holds of the schema when `nodes` have been entered. -/
structure Built (nodes : List Idl.Node) (s : Schema) : Prop where
  declares : Declares s nodes s
  names : s.definedNames.Perm (nodes.filterMap (·.definedName?))
  targets : ∀ e ∈ s.typedefs, s.Grounds e.2

theorem Built.empty : Built [] {} :=
  ⟨⟨.nil, .nil, rfl, .nil, .nil, .nil⟩, .nil, fun _ he => nomatch he⟩

theorem Built.add {nodes : List Idl.Node} {node : Idl.Node} (h : Built nodes s)
    (ha : Adds s node t u) : Built (nodes ++ [node]) u where
  declares := (h.declares.mono ha.joins.extends).join ha.declares ha.joins
  names := by
    have hnode : [node].filterMap (·.definedName?) = node.definedName?.toList := by
      cases hn : node.definedName? <;> simp [hn]
    rw [List.filterMap_append, hnode, ← ha.names]
    exact ha.joins.definedNames.trans (h.names.append_right _)
  targets := by
    intro e he
    rw [ha.joins.typedefs] at he
    rcases List.mem_append.mp he with he | he
    · exact ha.joins.extends.grounds (h.targets e he)
    · obtain ⟨written, hs⟩ := ha.targets e he
      exact ha.joins.extends.grounds (hs.grounds h.targets)

/-- Where names are distinct, no alias bears the name of a definition. -/
theorem alias_of_isSome_lookup {name : String} (hnames : s.definedNames.Nodup)
    (hdefined : (s.lookup name).isSome = true) : s.typedefs.find? name = none := by
  refine Table.find?_eq_none.mpr fun halias => ?_
  unfold Schema.definedNames at hnames
  have hapart := (List.nodup_append.mp (List.nodup_append.mp (List.nodup_append.mp hnames).1).1).2.2
  refine hapart name ?_ name halias rfl
  simpa [or_assoc] using isSome_lookup.mp hdefined

theorem Built.closed {nodes : List Idl.Node} (h : Built nodes s)
    (hnames : (nodes.filterMap (·.definedName?)).Nodup) : Closed s where
  names := h.names.nodup_iff.mpr hnames
  structs := by
    intro e he
    rcases List.mem_append.mp he with he | he
    · obtain ⟨written, -, hs⟩ := exists_of_mem_right h.declares.structs he
      exact hs.key.trans hs.name.symm
    · obtain ⟨written, -, hs⟩ := exists_of_mem_right h.declares.exceptions he
      exact hs.key.trans hs.name.symm
  enums := by
    intro e he
    rw [h.declares.enums] at he
    obtain ⟨n, -, rfl⟩ := List.mem_map.mp he
    rfl
  keyed := by
    intro d hd
    obtain ⟨name, written, hs⟩ := h.declares.structOf hd
    exact hs.keyed
  fields := by
    intro d hd
    obtain ⟨name, written, hs⟩ := h.declares.structOf hd
    exact hs.fields.apart
  functions := by
    intro f hf
    obtain ⟨written, hs⟩ := h.declares.functionOf hf
    exact ⟨hs.arguments.apart, hs.throws.apart⟩
  types := by
    intro ty hty name hn
    obtain ⟨written, hs⟩ := h.declares.stands hty
    have hdefined := hs.grounds h.targets name hn
    exact ⟨hdefined, alias_of_isSome_lookup (h.names.nodup_iff.mpr hnames) hdefined⟩

theorem checkDistinct_ok {seen names : List String} (h : checkDistinct seen names = .ok ()) :
    names.Nodup ∧ ∀ name ∈ names, name ∉ seen := by
  induction names generalizing seen with
  | nil => exact ⟨List.nodup_nil, fun _ hn => nomatch hn⟩
  | cons name names ih =>
    unfold checkDistinct at h
    split at h
    · cases h
    next hnew =>
      obtain ⟨hnodup, hfresh⟩ := ih h
      refine ⟨List.nodup_cons.mpr ⟨fun hm => hfresh name hm List.mem_cons_self, hnodup⟩,
        List.forall_mem_cons.mpr ⟨hnew, fun n hn hseen => ?_⟩⟩
      exact hfresh n hn (List.mem_cons_of_mem _ hseen)

theorem build_ok {language : String} {nodes : List Located} (h : build language nodes = .ok s) :
    Built (nodes.map (·.node)) s ∧ ((nodes.map (·.node)).filterMap (·.definedName?)).Nodup := by
  obtain ⟨⟨⟩, hnames, h⟩ := bind_eq_ok h
  have hdistinct := (checkDistinct_ok hnames).1
  have hmap : (nodes.map (·.node)).filterMap (·.definedName?) =
      nodes.filterMap (·.node.definedName?) := by
    rw [List.filterMap_map]
    rfl
  rw [hmap]
  refine ⟨?_, hdistinct⟩
  refine foldlM_eq_ok (fun before s => Built (before.map (·.node)) s) Built.empty ?_ h
  intro before n after s t hnodes hbuilt hadd
  have hfresh : ∀ name ∈ n.node.definedName?, name ∉ s.definedNames := by
    intro name hname hmem
    have hbefore : name ∈ before.filterMap (·.node.definedName?) := by
      have h := hbuilt.names.mem_iff.mp hmem
      rwa [List.filterMap_map] at h
    have hafter : name ∈ (n :: after).filterMap (·.node.definedName?) :=
      List.mem_filterMap.mpr ⟨n, List.mem_cons_self, hname⟩
    rw [hnodes, List.filterMap_append] at hdistinct
    exact (List.nodup_append.mp hdistinct).2.2 name hbefore name hafter rfl
  obtain ⟨new, hadds⟩ := addNode_adds (mapError_eq_ok hadd) hfresh
  rw [List.map_append]
  exact hbuilt.add hadds

theorem compile_ok {config : Config} {library : Library} {root : Option Files.Path}
    {nodes : List Idl.Node} (h : compile config library root nodes = .ok s) :
    ∃ program, expand library root nodes = .ok program ∧ Built (program.map (·.node)) s ∧
      Closed s := by
  obtain ⟨program, hprogram, h⟩ := bind_eq_ok h
  obtain ⟨hbuilt, hnames⟩ := build_ok h
  exact ⟨program, hprogram, hbuilt, hbuilt.closed hnames⟩

/-- A compiled schema is what the program with its includes declares, and it is closed. -/
theorem compile_closed {config : Config} {library : Library} {root : Option Files.Path}
    {nodes : List Idl.Node} (h : compile config library root nodes = .ok s) :
    ∃ program, expand library root nodes = .ok program ∧
      Declares s (program.map (·.node)) s ∧ Closed s ∧
      ∀ ty ∈ s.types, ∀ part ∈ ty.parts,
        ∃ shape, ∀ hops, Codec.resolveWithin s hops part = .ok shape := by
  obtain ⟨program, hprogram, hbuilt, hclosed⟩ := compile_ok h
  refine ⟨program, hprogram, hbuilt.declares, hclosed, fun ty hty part hpart => ?_⟩
  obtain ⟨written, hs⟩ := hbuilt.declares.stands hty
  exact resolveWithin_of_grounds (grounds_of_parts (hs.grounds hbuilt.targets) hpart)

/-- A struct that refers to itself, an alias of it, and a service that uses both. -/
def treeProgram : List Idl.Node :=
  let forest := "Forest"
  [.struct .struct "Tree" [⟨none, none, .list (.named "Tree"), "children", none⟩],
    .typedef forest (.set (.named "Tree")),
    .exception "Missing" [⟨some 4, none, .prim .i32, "depth", none⟩],
    .service "Garden" none
      [⟨"grow", some (.named forest), [⟨none, none, .named "garden.Tree", "seed", none⟩],
        [⟨none, none, .named "Missing", "missing", none⟩], false⟩]]

def treeSchema : Schema where
  structs := [("Tree", ⟨"Tree", .struct, [(1, ⟨1, "children", .list (.named "Tree"), none, none⟩)]⟩)]
  exceptions := [("Missing", ⟨"Missing", .exception, [(4, ⟨4, "depth", .prim .i32, none, none⟩)]⟩)]
  typedefs := [("Forest", .set (.named "Tree"))]
  services := [⟨"Garden", none,
    [⟨"grow", some (.set (.named "Tree")), [⟨1, "seed", .named "Tree", none, none⟩],
      [⟨1, "missing", .named "Missing", none, none⟩], false⟩]⟩]

theorem compile_tree : compile {} (.listed []) none treeProgram = .ok treeSchema := rfl

theorem treeSchema_closed : Closed treeSchema := by
  obtain ⟨_, _, _, h, _⟩ := compile_closed compile_tree
  exact h

end Compile

end ThriftRpc
