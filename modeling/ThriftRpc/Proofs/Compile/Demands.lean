import ThriftRpc.Proofs.Codec.Regular
import ThriftRpc.Proofs.Compile.Fields

/-!
# What a program has to satisfy

The demands on a program in the order in which they are made: definition by definition, in a
function the result before the arguments before the declared exceptions, and in a list of fields the
place of every field before the type of any. A demand knows only what comes before it in the
program. A program is well ordered if its definitions have distinct names and all its demands are
met (`wellOrdered_iff`).
-/

namespace ThriftRpc.Compile

open Idl (Field Function Node)

section Known

variable {visible : List String} {name short : String}

/-- `short` is what follows the last dot of the name. -/
def IsLastSegment (name short : String) : Prop :=
  ∃ before, name.toList = before ++ '.' :: short.toList ∧ '.' ∉ short.toList

theorem IsLastSegment.eq (h : IsLastSegment name short) : Text.lastSegment name = short := by
  obtain ⟨before, hname, hshort⟩ := h
  have hne : ∀ c ∈ short.toList.reverse, decide (c ≠ '.') = true := fun c hc =>
    decide_eq_true fun heq => hshort (List.mem_reverse.mp (heq ▸ hc))
  unfold Text.lastSegment
  rw [hname, List.reverse_append, List.reverse_cons, List.append_assoc,
    List.takeWhile_append_of_pos hne]
  simp

theorem exists_isLastSegment (h : '.' ∈ name.toList) : ∃ short, IsLastSegment name short := by
  -- The last dot is the first one from behind.
  obtain ⟨after, before, hname, hafter⟩ :=
    List.eq_append_cons_of_mem (List.mem_reverse.mpr h)
  refine ⟨.ofList after.reverse, before.reverse, ?_, ?_⟩
  · rw [← List.reverse_reverse name.toList, hname, String.toList_ofList]
    simp
  · rwa [String.toList_ofList, List.mem_reverse]

/-- A name that is visible, whole or by what follows its last dot. -/
def Known (visible : List String) (name : String) : Prop :=
  name ∈ visible ∨ ∃ short ∈ visible, IsLastSegment name short

theorem known_iff : Known visible name ↔
    name ∈ visible ∨ name.toList.contains '.' = true ∧ Text.lastSegment name ∈ visible := by
  constructor
  · rintro (hwhole | ⟨short, hvisible, hshort⟩)
    · exact .inl hwhole
    · obtain ⟨before, hname, -⟩ := id hshort
      exact .inr ⟨by rw [hname]; simp, hshort.eq ▸ hvisible⟩
  · rintro (hwhole | ⟨hdot, hvisible⟩)
    · exact .inl hwhole
    · obtain ⟨short, hshort⟩ := exists_isLastSegment (List.contains_iff_mem.mp hdot)
      exact .inr ⟨short, hshort.eq ▸ hvisible, hshort⟩

instance (visible : List String) (name : String) : Decidable (Known visible name) :=
  decidable_of_iff _ known_iff.symm

end Known

inductive Demand where
  /-- The index of a field fits 16 bits. -/
  | range (owner field : String) (index : Int)
  /-- No field before has the index. -/
  | freshIndex (owner : String) (index : Int) (before : List Int)
  | freshName (owner field : String) (before : List String)
  /-- A name in a type is known. -/
  | known (name : String) (visible : List String)

namespace Demand

def Met : Demand → Prop
  | range _ _ index => -0x8000 ≤ index ∧ index ≤ 0x7FFF
  | freshIndex _ index before => index ∉ before
  | freshName _ field before => field ∉ before
  | known name visible => Known visible name

instance : DecidablePred Met
  | range _ _ index => inferInstanceAs (Decidable (-0x8000 ≤ index ∧ index ≤ 0x7FFF))
  | freshIndex _ index before => inferInstanceAs (Decidable (index ∉ before))
  | freshName _ field before => inferInstanceAs (Decidable (field ∉ before))
  | known name visible => inferInstanceAs (Decidable (Known visible name))

/-- The fault of a program that does not meet the demand. -/
def fault : Demand → Fault
  | range owner field index => .indexRange owner field index
  | freshIndex owner index _ => .duplicateIndex owner index
  | freshName owner field _ => .duplicateName owner field
  | known name _ => .unknownType name

end Demand

def typeDemands (visible : List String) (ty : Ty) : List Demand :=
  ty.names.map fun name => .known name visible

/-- What is demanded of the places of fields that follow the ones in `before`. -/
def placeDemands (owner : String) (before : List (Int × String)) (position : Nat) :
    List Field → List Demand
  | [] => []
  | f :: fs =>
    let index := indexAt position f
    .range owner f.name index :: .freshIndex owner index (before.map Prod.fst) ::
      .freshName owner f.name (before.map Prod.snd) ::
      placeDemands owner (before ++ [(index, f.name)]) (position + 1) fs

def fieldsDemands (visible : List String) (owner : String) (fields : List Field) : List Demand :=
  placeDemands owner [] 0 fields ++ fields.flatMap fun f => typeDemands visible f.type

def functionDemands (visible : List String) (service : String) (f : Function) : List Demand :=
  let owner := service ++ "." ++ f.name
  f.returns.toList.flatMap (typeDemands visible) ++ (fieldsDemands visible owner f.arguments ++
    fieldsDemands visible (owner ++ " throws") f.throws)

/-- The fields of a struct may refer to the struct. -/
def nodeDemands (visible : List String) : Node → List Demand
  | .constant _ type _ => typeDemands visible type
  | .typedef _ target => typeDemands visible target
  | .struct _ name fields => fieldsDemands (visible ++ [name]) name fields
  | .exception name fields => fieldsDemands (visible ++ [name]) name fields
  | .service name _ functions => functions.flatMap (functionDemands visible name)
  | .comment _ | .scope _ _ | .inclusion _ | .enum _ _ | .senum _ _ => []

/-- The name of a definition that is a type. -/
def typeName? : Node → Option String
  | .typedef name _ | .enum name _ | .senum name _ | .struct _ name _ | .exception name _ =>
    some name
  | .comment _ | .scope _ _ | .inclusion _ | .constant _ _ _ | .service _ _ _ => none

/-- The name of a definition, which is a type, a constant or a service. -/
def definitionName? : Node → Option String
  | .constant name _ _ | .service name _ _ => some name
  | n => typeName? n

theorem definedName?_eq (n : Node) : n.definedName? = definitionName? n := by
  cases n <;> rfl

/-- The demands of nodes before which the types in `visible` are defined. -/
def demands (visible : List String) : List Node → List Demand
  | [] => []
  | n :: rest => nodeDemands visible n ++ demands (visible ++ (typeName? n).toList) rest

/-! ## Well-ordered programs -/

def indices (fields : List Field) : List Int := fields.mapIdx indexAt

structure FieldsOrdered (visible : List String) (fields : List Field) : Prop where
  range : ∀ index ∈ indices fields, -0x8000 ≤ index ∧ index ≤ 0x7FFF
  indices : (indices fields).Nodup
  names : (fields.map (·.name)).Nodup
  types : ∀ f ∈ fields, ∀ name ∈ f.type.names, Known visible name

structure FunctionOrdered (visible : List String) (f : Function) : Prop where
  returns : ∀ ty ∈ f.returns, ∀ name ∈ ty.names, Known visible name
  arguments : FieldsOrdered visible f.arguments
  throws : FieldsOrdered visible f.throws

/-- A definition refers to what is visible, a struct also to itself. -/
def NodeOrdered (visible : List String) : Node → Prop
  | .constant _ type _ => ∀ name ∈ type.names, Known visible name
  | .typedef _ target => ∀ name ∈ target.names, Known visible name
  | .struct _ name fields => FieldsOrdered (visible ++ [name]) fields
  | .exception name fields => FieldsOrdered (visible ++ [name]) fields
  | .service _ _ functions => ∀ f ∈ functions, FunctionOrdered visible f
  | .comment _ | .scope _ _ | .inclusion _ | .enum _ _ | .senum _ _ => True

/-- Definitions have distinct names, and each refers only to types before it or to itself. -/
structure WellOrdered (nodes : List Node) : Prop where
  names : (nodes.filterMap definitionName?).Nodup
  each : ∀ before n after, nodes = before ++ n :: after →
    NodeOrdered (before.filterMap typeName?) n

section Met

variable {visible : List String} {owner : String} {fields : List Field}

theorem typeDemands_met_iff {ty : Ty} :
    (∀ d ∈ typeDemands visible ty, d.Met) ↔ ∀ name ∈ ty.names, Known visible name :=
  List.forall_mem_map

/-- The indices of fields, the first of them at `place`. -/
def indicesFrom (place : Nat) (fields : List Field) : List Int :=
  fields.mapIdx fun i f => indexAt (place + i) f

theorem indicesFrom_zero (fields : List Field) : indicesFrom 0 fields = indices fields := by
  simp only [indicesFrom, indices, Nat.zero_add]

theorem indicesFrom_cons (place : Nat) (f : Field) (fields : List Field) :
    indicesFrom place (f :: fields) = indexAt place f :: indicesFrom (place + 1) fields := by
  simp [indicesFrom, Nat.add_assoc, Nat.add_comm 1]

/-- The places of fields are as they should be, beside those in `before`. -/
theorem placeDemands_met_iff {before : List (Int × String)} {place : Nat} :
    (∀ d ∈ placeDemands owner before place fields, d.Met) ↔
      (∀ index ∈ indicesFrom place fields, -0x8000 ≤ index ∧ index ≤ 0x7FFF) ∧
      (before.map Prod.fst).Disjoint (indicesFrom place fields) ∧
      (indicesFrom place fields).Nodup ∧
      (before.map Prod.snd).Disjoint (fields.map (·.name)) ∧ (fields.map (·.name)).Nodup := by
  induction fields generalizing before place with
  | nil => simp [placeDemands, indicesFrom]
  | cons f fields ih =>
    have hcons : (∀ d ∈ placeDemands owner before place (f :: fields), d.Met) ↔
        (-0x8000 ≤ indexAt place f ∧ indexAt place f ≤ 0x7FFF) ∧
          indexAt place f ∉ before.map Prod.fst ∧ f.name ∉ before.map Prod.snd ∧
          ∀ d ∈ placeDemands owner (before ++ [(indexAt place f, f.name)]) (place + 1) fields,
            d.Met := by
      rw [placeDemands]
      simp only [List.forall_mem_cons]
      exact Iff.rfl
    rw [hcons, ih, indicesFrom_cons]
    simp only [List.map_append, List.map_cons, List.map_nil, List.nodup_cons,
      List.forall_mem_cons, List.disjoint_cons_right, List.disjoint_append_left,
      List.singleton_disjoint]
    tauto

theorem fieldsDemands_met_iff :
    (∀ d ∈ fieldsDemands visible owner fields, d.Met) ↔ FieldsOrdered visible fields := by
  unfold fieldsDemands
  rw [List.forall_mem_append, placeDemands_met_iff, indicesFrom_zero]
  have htypes : (∀ d ∈ fields.flatMap fun f => typeDemands visible f.type, d.Met) ↔
      ∀ f ∈ fields, ∀ name ∈ f.type.names, Known visible name := by
    rw [List.forall_mem_flatMap]
    exact forall₂_congr fun f _ => typeDemands_met_iff
  rw [htypes]
  constructor
  · rintro ⟨⟨hrange, -, hindices, -, hnames⟩, htypes⟩
    exact ⟨hrange, hindices, hnames, htypes⟩
  · intro h
    exact ⟨⟨h.range, List.disjoint_nil_left _, h.indices, List.disjoint_nil_left _, h.names⟩,
      h.types⟩

theorem functionDemands_met_iff {service : String} {f : Function} :
    (∀ d ∈ functionDemands visible service f, d.Met) ↔ FunctionOrdered visible f := by
  unfold functionDemands
  rw [List.forall_mem_append, List.forall_mem_append, fieldsDemands_met_iff, fieldsDemands_met_iff,
    List.forall_mem_flatMap]
  constructor
  · rintro ⟨hreturns, harguments, hthrows⟩
    exact ⟨fun ty hty => typeDemands_met_iff.mp (hreturns ty (Option.mem_toList.mpr hty)),
      harguments, hthrows⟩
  · intro h
    exact ⟨fun ty hty => typeDemands_met_iff.mpr (h.returns ty (Option.mem_toList.mp hty)),
      h.arguments, h.throws⟩

theorem nodeDemands_met_iff {n : Node} :
    (∀ d ∈ nodeDemands visible n, d.Met) ↔ NodeOrdered visible n := by
  cases n with
  | constant name type value => exact typeDemands_met_iff
  | typedef name target => exact typeDemands_met_iff
  | struct kind name fields => exact fieldsDemands_met_iff
  | exception name fields => exact fieldsDemands_met_iff
  | service name parent functions =>
    exact List.forall_mem_flatMap.trans (forall₂_congr fun f _ => functionDemands_met_iff)
  | _ => exact iff_of_true (List.forall_mem_nil _) trivial

theorem demands_met_iff {nodes : List Node} :
    (∀ d ∈ demands visible nodes, d.Met) ↔ ∀ before n after, nodes = before ++ n :: after →
      NodeOrdered (visible ++ before.filterMap typeName?) n := by
  induction nodes generalizing visible with
  | nil => simp [demands]
  | cons n nodes ih =>
    have hvisible (before : List Node) : visible ++ (n :: before).filterMap typeName? =
        visible ++ (typeName? n).toList ++ before.filterMap typeName? := by
      rw [List.append_assoc]
      cases hn : typeName? n <;> simp [hn]
    unfold demands
    rw [List.forall_mem_append, nodeDemands_met_iff, ih]
    constructor
    · rintro ⟨hn, hrest⟩ before m after heq
      cases before with
      | nil =>
        cases heq
        rwa [List.filterMap_nil, List.append_nil]
      | cons b before =>
        cases heq
        rw [hvisible]
        exact hrest before m after rfl
    · intro h
      refine ⟨?_, fun before m after heq => ?_⟩
      · have hfirst := h [] n nodes rfl
        rwa [List.filterMap_nil, List.append_nil] at hfirst
      · have hnext := h (n :: before) m after (by rw [heq]; rfl)
        rwa [hvisible] at hnext

end Met

theorem wellOrdered_iff {nodes : List Node} :
    WellOrdered nodes ↔
      (nodes.filterMap definitionName?).Nodup ∧ ∀ d ∈ demands [] nodes, d.Met := by
  rw [demands_met_iff]
  exact ⟨fun h => ⟨h.names, h.each⟩, fun h => ⟨h.1, h.2⟩⟩

end ThriftRpc.Compile
