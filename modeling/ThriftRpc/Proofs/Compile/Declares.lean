import ThriftRpc.Proofs.Compile.Fields
import ThriftRpc.Proofs.Table

/-!
# What a schema takes over from a program

Each table of a schema holds the definitions of one kind, in the order of the program
(`Declares`), and every node adds its own definition at the end (`addNode_declares`).
-/

namespace ThriftRpc

/-- The names of all definitions. -/
def Schema.definedNames (s : Schema) : List String :=
  s.structs.map Prod.fst ++ s.exceptions.map Prod.fst ++ s.enums.map Prod.fst ++
    s.typedefs.map Prod.fst ++ s.constants.map Prod.fst ++ s.services.map ServiceDef.name

namespace Compile

open Idl (Field Function Node)

variable {s t u : Schema}

def struct? : Node → Option (StructKind × String × List Field)
  | .struct kind name fields => some (kind, name, fields)
  | _ => none

def exception? : Node → Option (StructKind × String × List Field)
  | .exception name fields => some (.exception, name, fields)
  | _ => none

def enum? : Node → Option (String × List String)
  | .enum name members => some (name, members.map (·.name))
  | _ => none

/-- The aliases; an enum of texts is one. -/
def alias? : Node → Option (String × Ty)
  | .typedef name target => some (name, target)
  | .senum name _ => some (name, .prim .string)
  | _ => none

def constant? : Node → Option (String × Ty × Const)
  | .constant name type value => some (name, type, value)
  | _ => none

def service? : Node → Option (String × Option String × List Function)
  | .service name parent functions => some (name, parent, functions)
  | _ => none

structure StructOf (s : Schema) (written : StructKind × String × List Field)
    (e : String × StructDef) : Prop where
  key : e.1 = written.2.1
  name : e.2.name = written.2.1
  kind : e.2.kind = written.1
  keyed : ∀ f ∈ e.2.fields, f.1 = f.2.index
  fields : FieldsOf s written.2.2 (e.2.fields.map Prod.snd)

structure FunctionOf (s : Schema) (written : Function) (d : FunctionDef) : Prop where
  name : d.name = written.name
  oneway : d.oneway = written.oneway
  returns : Option.Rel (Stands s) written.returns d.returns
  arguments : FieldsOf s written.arguments d.arguments
  throws : FieldsOf s written.throws d.throws

structure ServiceOf (s : Schema) (written : String × Option String × List Function)
    (d : ServiceDef) : Prop where
  name : d.name = written.1
  parent : d.parent = written.2.1
  functions : List.Forall₂ (FunctionOf s) written.2.2 d.functions

/-- The tables of `t` are the definitions among `nodes`, in their order. Their types stand for the
written ones in `s`. -/
structure Declares (s : Schema) (nodes : List Node) (t : Schema) : Prop where
  structs : List.Forall₂ (StructOf s) (nodes.filterMap struct?) t.structs
  exceptions : List.Forall₂ (StructOf s) (nodes.filterMap exception?) t.exceptions
  enums : t.enums = (nodes.filterMap enum?).map fun n => (n.1, ⟨n.1, n.2⟩)
  aliases : List.Forall₂ (fun n e => e.1 = n.1 ∧ Stands s n.2 e.2) (nodes.filterMap alias?)
    t.typedefs
  constants : List.Forall₂ (fun n e => e.1 = n.1 ∧ Stands s n.2.1 e.2.type ∧ e.2.value = n.2.2)
    (nodes.filterMap constant?) t.constants
  services : List.Forall₂ (ServiceOf s) (nodes.filterMap service?) t.services

/-- `u` has the definitions of `s` and then those of `t`. -/
structure Joins (s t u : Schema) : Prop where
  structs : u.structs = s.structs ++ t.structs
  exceptions : u.exceptions = s.exceptions ++ t.exceptions
  enums : u.enums = s.enums ++ t.enums
  typedefs : u.typedefs = s.typedefs ++ t.typedefs
  constants : u.constants = s.constants ++ t.constants
  services : u.services = s.services ++ t.services

/-! ## More definitions -/

theorem StructOf.mono (h : Extends s t) {written : StructKind × String × List Field}
    {e : String × StructDef} (hd : StructOf s written e) : StructOf t written e :=
  ⟨hd.key, hd.name, hd.kind, hd.keyed, hd.fields.mono h⟩

theorem FunctionOf.mono (h : Extends s t) {written : Function} {d : FunctionDef}
    (hd : FunctionOf s written d) : FunctionOf t written d := by
  refine ⟨hd.name, hd.oneway, ?_, hd.arguments.mono h, hd.throws.mono h⟩
  have hreturns := hd.returns
  generalize written.returns = a, d.returns = b at hreturns
  cases hreturns with
  | some hr => exact .some (hr.mono h)
  | none => exact .none

theorem ServiceOf.mono (h : Extends s t) {written : String × Option String × List Function}
    {d : ServiceDef} (hd : ServiceOf s written d) : ServiceOf t written d :=
  ⟨hd.name, hd.parent, hd.functions.imp fun _ _ hf => hf.mono h⟩

theorem Declares.mono (h : Extends s t) {nodes : List Node} (hd : Declares s nodes u) :
    Declares t nodes u where
  structs := hd.structs.imp fun _ _ hs => hs.mono h
  exceptions := hd.exceptions.imp fun _ _ hs => hs.mono h
  enums := hd.enums
  aliases := hd.aliases.imp fun _ _ ha => ⟨ha.1, ha.2.mono h⟩
  constants := hd.constants.imp fun _ _ hc => ⟨hc.1, hc.2.1.mono h, hc.2.2⟩
  services := hd.services.imp fun _ _ hs => hs.mono h

theorem Declares.join {a b : List Node} {v : Schema} (ha : Declares v a s) (hb : Declares v b t)
    (hj : Joins s t u) : Declares v (a ++ b) u where
  structs := by
    rw [List.filterMap_append, hj.structs]
    exact List.rel_append ha.structs hb.structs
  exceptions := by
    rw [List.filterMap_append, hj.exceptions]
    exact List.rel_append ha.exceptions hb.exceptions
  enums := by rw [List.filterMap_append, hj.enums, ha.enums, hb.enums, List.map_append]
  aliases := by
    rw [List.filterMap_append, hj.typedefs]
    exact List.rel_append ha.aliases hb.aliases
  constants := by
    rw [List.filterMap_append, hj.constants]
    exact List.rel_append ha.constants hb.constants
  services := by
    rw [List.filterMap_append, hj.services]
    exact List.rel_append ha.services hb.services

theorem isSome_lookup {name : String} : (s.lookup name).isSome = true ↔
    name ∈ s.structs.map Prod.fst ∨ name ∈ s.exceptions.map Prod.fst ∨
      name ∈ s.enums.map Prod.fst := by
  rw [← Table.isSome_find?, ← Table.isSome_find?, ← Table.isSome_find?]
  unfold Schema.lookup
  cases s.structs.find? name with
  | some d => simp
  | none =>
    cases s.exceptions.find? name with
    | some d => simp
    | none => simp

theorem Joins.extends (hj : Joins s t u) : Extends s u where
  aliases := by
    intro name target h
    rw [hj.typedefs]
    exact Table.find?_append_of_some h
  defined := by
    intro name h
    rw [isSome_lookup] at h ⊢
    rw [hj.structs, hj.exceptions, hj.enums, List.map_append, List.map_append, List.map_append]
    exact h.imp (List.mem_append_left _) (Or.imp (List.mem_append_left _) (List.mem_append_left _))

/-- Only the names of definitions matter to names. -/
theorem extends_of_keys (hstructs : s.structs.map Prod.fst = t.structs.map Prod.fst)
    (hexceptions : s.exceptions.map Prod.fst = t.exceptions.map Prod.fst)
    (henums : s.enums.map Prod.fst = t.enums.map Prod.fst) (htypedefs : s.typedefs = t.typedefs) :
    Extends s t where
  aliases := by
    intro name target h
    rwa [← htypedefs]
  defined := by
    intro name h
    rwa [isSome_lookup, ← hstructs, ← hexceptions, ← henums, ← isSome_lookup]

theorem Joins.definedNames (hj : Joins s t u) :
    u.definedNames.Perm (s.definedNames ++ t.definedNames) := by
  unfold Schema.definedNames
  rw [hj.structs, hj.exceptions, hj.enums, hj.typedefs, hj.constants, hj.services,
    List.perm_iff_count]
  intro name
  simp only [List.map_append, List.count_append]
  omega

/-! ## One node -/

theorem ofFields_fields {name : String} {kind : StructKind} {defs : List FieldDef}
    (h : FieldsApart defs) :
    (StructDef.ofFields name kind defs).fields = defs.map fun f => (f.index, f) := by
  unfold StructDef.ofFields
  refine Table.ofList_eq ?_
  rw [List.map_map]
  exact h.indices

theorem ofFields_structOf (name : String) (kind : StructKind) {fields : List Field}
    {defs : List FieldDef} (h : FieldsOf s fields defs) :
    StructOf s (kind, name, fields) (name, .ofFields name kind defs) := by
  have hfields : (StructDef.ofFields name kind defs).fields = defs.map fun f => (f.index, f) :=
    ofFields_fields h.apart
  refine ⟨rfl, rfl, rfl, ?_, ?_⟩
  · rw [hfields]
    intro e he
    obtain ⟨f, -, rfl⟩ := List.mem_map.mp he
    rfl
  · rw [hfields, List.map_map]
    simpa [Function.comp_def] using h

theorem functionDef_ok {service : String} {f : Function} {d : FunctionDef}
    (h : functionDef s service f = .ok d) : FunctionOf s f d := by
  unfold functionDef at h
  obtain ⟨returns, hreturns, h⟩ := bind_eq_ok h
  obtain ⟨arguments, harguments, h⟩ := bind_eq_ok h
  obtain ⟨throws, hthrows, h⟩ := bind_eq_ok h
  cases h
  refine ⟨rfl, rfl, ?_, fieldDefs_ok harguments, fieldDefs_ok hthrows⟩
  cases hr : f.returns with
  | none => rw [hr] at hreturns; cases hreturns; exact .none
  | some type =>
    rw [hr] at hreturns
    obtain ⟨t, ht, rfl⟩ := map_eq_ok hreturns
    exact .some (resolveType_stands ht)

/-- The schema `t` is what a node adds to `s`, which becomes `u`. -/
structure Adds (s : Schema) (node : Node) (t u : Schema) : Prop where
  joins : Joins s t u
  declares : Declares u [node] t
  names : t.definedNames = node.definedName?.toList
  targets : ∀ e ∈ t.typedefs, ∃ written, Stands s written e.2

theorem not_mem_definedNames {name : String} (h : name ∉ s.definedNames) :
    name ∉ s.structs.map Prod.fst ∧ name ∉ s.exceptions.map Prod.fst ∧
      name ∉ s.enums.map Prod.fst ∧ name ∉ s.typedefs.map Prod.fst ∧
      name ∉ s.constants.map Prod.fst := by
  unfold Schema.definedNames at h
  simp only [List.mem_append, not_or] at h
  exact ⟨h.1.1.1.1.1, h.1.1.1.1.2, h.1.1.1.2, h.1.1.2, h.1.2⟩

theorem addNode_adds {language : String} {node : Node} (h : addNode language s node = .ok u)
    (hfresh : ∀ name ∈ node.definedName?, name ∉ s.definedNames) : ∃ t, Adds s node t u := by
  cases node with
  | comment text =>
    cases h
    exact ⟨{}, by constructor <;> simp, ⟨.nil, .nil, rfl, .nil, .nil, .nil⟩, rfl, by simp⟩
  | inclusion path =>
    cases h
    exact ⟨{}, by constructor <;> simp, ⟨.nil, .nil, rfl, .nil, .nil, .nil⟩, rfl, by simp⟩
  | scope lang name =>
    have hj : Joins s {} u := by
      simp only [addNode] at h
      split at h <;> cases h <;> constructor <;> simp
    exact ⟨{}, hj, ⟨.nil, .nil, by simp [enum?], .nil, .nil, .nil⟩, rfl, by simp⟩
  | constant name written value =>
    obtain ⟨-, -, -, -, hnew⟩ := not_mem_definedNames (hfresh name rfl)
    obtain ⟨type, htype, h⟩ := bind_eq_ok h
    rw [Table.insert_of_not_mem _ hnew] at h
    cases h
    let t : Schema := { constants := [(name, ⟨type, value⟩)] }
    have hj : Joins s t { s with constants := s.constants ++ t.constants } := by
      constructor <;> simp [t]
    have htype := (resolveType_stands htype).mono hj.extends
    exact ⟨t, hj, ⟨.nil, .nil, rfl, .nil, .cons ⟨rfl, htype, rfl⟩ .nil, .nil⟩, rfl, by simp [t]⟩
  | typedef name written =>
    obtain ⟨-, -, -, hnew, -⟩ := not_mem_definedNames (hfresh name rfl)
    obtain ⟨target, htarget, h⟩ := bind_eq_ok h
    rw [Table.insert_of_not_mem _ hnew] at h
    cases h
    let t : Schema := { typedefs := [(name, target)] }
    have hj : Joins s t { s with typedefs := s.typedefs ++ t.typedefs } := by
      constructor <;> simp [t]
    have hstands := resolveType_stands htarget
    refine ⟨t, hj, ⟨.nil, .nil, rfl, .cons ⟨rfl, hstands.mono hj.extends⟩ .nil, .nil, .nil⟩, rfl,
      fun e he => ?_⟩
    cases List.mem_singleton.mp he
    exact ⟨written, hstands⟩
  | enum name members =>
    obtain ⟨-, -, hnew, -, -⟩ := not_mem_definedNames (hfresh name rfl)
    simp only [addNode, Table.insert_of_not_mem _ hnew] at h
    cases h
    let t : Schema := { enums := [(name, ⟨name, members.map (·.name)⟩)] }
    have hj : Joins s t { s with enums := s.enums ++ t.enums } := by
      constructor <;> simp [t]
    exact ⟨t, hj, ⟨.nil, .nil, rfl, .nil, .nil, .nil⟩, rfl, by simp [t]⟩
  | senum name values =>
    obtain ⟨-, -, -, hnew, -⟩ := not_mem_definedNames (hfresh name rfl)
    simp only [addNode, Table.insert_of_not_mem _ hnew] at h
    cases h
    let t : Schema := { typedefs := [(name, .prim .string)] }
    have hj : Joins s t { s with typedefs := s.typedefs ++ t.typedefs } := by
      constructor <;> simp [t]
    refine ⟨t, hj, ⟨.nil, .nil, rfl, .cons ⟨rfl, .prim .string⟩ .nil, .nil, .nil⟩, rfl,
      fun e he => ?_⟩
    cases List.mem_singleton.mp he
    exact ⟨.prim .string, .prim .string⟩
  | struct kind name fields =>
    obtain ⟨hnew, -⟩ := not_mem_definedNames (hfresh name rfl)
    obtain ⟨defs, hdefs, h⟩ := bind_eq_ok h
    rw [Table.insert_of_not_mem _ hnew] at h hdefs
    cases h
    let t : Schema := { structs := [(name, .ofFields name kind defs)] }
    have hj : Joins s t { s with structs := s.structs ++ t.structs } := by
      constructor <;> simp [t]
    have hstruct : StructOf { s with structs := s.structs ++ t.structs } (kind, name, fields)
        (name, .ofFields name kind defs) := by
      refine (ofFields_structOf name kind (fieldDefs_ok hdefs)).mono ?_
      apply extends_of_keys <;> simp [t]
    exact ⟨t, hj, ⟨.cons hstruct .nil, .nil, rfl, .nil, .nil, .nil⟩, rfl, by simp [t]⟩
  | exception name fields =>
    obtain ⟨-, hnew, -⟩ := not_mem_definedNames (hfresh name rfl)
    obtain ⟨defs, hdefs, h⟩ := bind_eq_ok h
    rw [Table.insert_of_not_mem _ hnew] at h hdefs
    cases h
    let t : Schema := { exceptions := [(name, .ofFields name .exception defs)] }
    have hj : Joins s t { s with exceptions := s.exceptions ++ t.exceptions } := by
      constructor <;> simp [t]
    have hstruct : StructOf { s with exceptions := s.exceptions ++ t.exceptions }
        (.exception, name, fields) (name, .ofFields name .exception defs) := by
      refine (ofFields_structOf name .exception (fieldDefs_ok hdefs)).mono ?_
      apply extends_of_keys <;> simp [t]
    exact ⟨t, hj, ⟨.nil, .cons hstruct .nil, rfl, .nil, .nil, .nil⟩, rfl, by simp [t]⟩
  | service name parent functions =>
    obtain ⟨defs, hdefs, h⟩ := bind_eq_ok h
    cases h
    let t : Schema := { services := [⟨name, parent, defs⟩] }
    have hj : Joins s t { s with services := s.services ++ t.services } := by
      constructor <;> simp [t]
    have hfunctions : List.Forall₂ (FunctionOf s) functions defs :=
      (mapM_eq_ok hdefs).imp fun _ _ hf => functionDef_ok hf
    have hservice : ServiceOf s (name, parent, functions) ⟨name, parent, defs⟩ :=
      ⟨rfl, rfl, hfunctions⟩
    exact ⟨t, hj, ⟨.nil, .nil, rfl, .nil, .nil, .cons (hservice.mono hj.extends) .nil⟩, rfl,
      by simp [t]⟩

end Compile

end ThriftRpc
