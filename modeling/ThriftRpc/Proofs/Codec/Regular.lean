import ThriftRpc.Codec.Shape
import ThriftRpc.Proofs.Table

/-!
# Regular schemas

A schema is regular if every name in it resolves (`Schema.Complete`), the fields of its structs are
found by index and by name, and the codes of its enums fit 32 bits (`Schema.Keyed`). What a type
resolves to is then regular too (`resolve_regular`).
-/

namespace ThriftRpc

/-- The names in a type. -/
def Ty.names : Ty → List String
  | prim _ => []
  | named name => [name]
  | list elem | set elem => elem.names
  | map key value => key.names ++ value.names

namespace StructDef

def fieldDefs (d : StructDef) : List FieldDef := d.fields.map Prod.snd

def fieldNames (d : StructDef) : List String := d.fieldDefs.map FieldDef.name

theorem fieldNames_eq (d : StructDef) : d.fieldNames = d.fields.map fun e => e.2.name := by
  unfold fieldNames fieldDefs
  rw [List.map_map]
  rfl

theorem fieldNamed?_isSome {d : StructDef} {name : String} :
    (d.fieldNamed? name).isSome = true ↔ name ∈ d.fieldNames := by
  unfold fieldNamed? fieldNames fieldDefs
  simp

/-- A field with a name of its own is found by it. -/
theorem fieldNamed?_eq {d : StructDef} (hd : d.fieldNames.Nodup) {f : FieldDef}
    (hf : f ∈ d.fieldDefs) : d.fieldNamed? f.name = some f := by
  obtain ⟨g, hg⟩ := Option.isSome_iff_exists.mp
    (fieldNamed?_isSome.mpr (List.mem_map_of_mem (f := FieldDef.name) hf))
  have hname : g.name = f.name := by
    unfold fieldNamed? at hg
    simpa using List.find?_some hg
  rw [hg, List.inj_on_of_nodup_map hd (List.mem_of_find?_eq_some hg) hf hname]

end StructDef

namespace Schema

/-- Structs, unions and exceptions. -/
def structDefs (s : Schema) : List StructDef := s.structs.map Prod.snd ++ s.exceptions.map Prod.snd

/-- Every name in the type resolves. -/
def Resolves (s : Schema) (ty : Ty) : Prop :=
  ∀ name ∈ ty.names, (Codec.resolve s (.named name)).isOk = true

instance (s : Schema) (ty : Ty) : Decidable (s.Resolves ty) :=
  inferInstanceAs (Decidable (∀ name ∈ ty.names, _))

end Schema

/-- Fields are keyed by their own index, and no two share an index or a name. -/
structure StructDef.Keyed (d : StructDef) : Prop where
  own : ∀ e ∈ d.fields, e.1 = e.2.index
  indices : (d.fields.map Prod.fst).Nodup
  names : d.fieldNames.Nodup

instance (d : StructDef) : Decidable d.Keyed :=
  decidable_of_iff ((∀ e ∈ d.fields, e.1 = e.2.index) ∧ (d.fields.map Prod.fst).Nodup ∧
      d.fieldNames.Nodup)
    ⟨fun h => ⟨h.1, h.2.1, h.2.2⟩, fun h => ⟨h.own, h.indices, h.names⟩⟩

/-- Fields are keyed by their own index, no two share a name, and their types resolve. -/
structure StructDef.Regular (s : Schema) (d : StructDef) : Prop where
  keyed : ∀ e ∈ d.fields, e.1 = e.2.index
  indices : (d.fields.map Prod.fst).Nodup
  names : d.fieldNames.Nodup
  types : ∀ f ∈ d.fieldDefs, s.Resolves f.type

instance (s : Schema) (d : StructDef) : Decidable (d.Regular s) :=
  decidable_of_iff ((∀ e ∈ d.fields, e.1 = e.2.index) ∧ (d.fields.map Prod.fst).Nodup ∧
      d.fieldNames.Nodup ∧ ∀ f ∈ d.fieldDefs, s.Resolves f.type)
    ⟨fun h => ⟨h.1, h.2.1, h.2.2.1, h.2.2.2⟩, fun h => ⟨h.keyed, h.indices, h.names, h.types⟩⟩

/-- Every member has a code that is not negative. -/
def EnumDef.Coded (d : EnumDef) : Prop := d.members.length ≤ 0x80000000

instance (d : EnumDef) : Decidable d.Coded := inferInstanceAs (Decidable (_ ≤ _))

structure Schema.Regular (s : Schema) : Prop where
  structs : ∀ d ∈ s.structDefs, d.Regular s
  targets : ∀ e ∈ s.typedefs, s.Resolves e.2
  enums : ∀ e ∈ s.enums, e.2.Coded

instance (s : Schema) : Decidable s.Regular :=
  decidable_of_iff ((∀ d ∈ s.structDefs, d.Regular s) ∧ (∀ e ∈ s.typedefs, s.Resolves e.2) ∧
      ∀ e ∈ s.enums, e.2.Coded)
    ⟨fun h => ⟨h.1, h.2.1, h.2.2⟩, fun h => ⟨h.structs, h.targets, h.enums⟩⟩

/-- The fields of its structs are found by index and by name, and members by their codes. -/
structure Schema.Keyed (s : Schema) : Prop where
  structs : ∀ d ∈ s.structDefs, d.Keyed
  enums : ∀ e ∈ s.enums, e.2.Coded

instance (s : Schema) : Decidable s.Keyed :=
  decidable_of_iff ((∀ d ∈ s.structDefs, d.Keyed) ∧ ∀ e ∈ s.enums, e.2.Coded)
    ⟨fun h => ⟨h.1, h.2⟩, fun h => ⟨h.structs, h.enums⟩⟩

def Shape.Regular (s : Schema) : Shape → Prop
  | prim _ => True
  | enum d => d.Coded
  | struct d => d.Regular s
  | list elem | set elem => s.Resolves elem
  | map key value => s.Resolves key ∧ s.Resolves value

/-- Every name in the type of a field or in the target of an alias resolves. -/
structure Schema.Complete (s : Schema) : Prop where
  fields : ∀ d ∈ s.structDefs, ∀ f ∈ d.fieldDefs, s.Resolves f.type
  targets : ∀ e ∈ s.typedefs, s.Resolves e.2

theorem Schema.Regular.complete {s : Schema} (h : s.Regular) : s.Complete :=
  ⟨fun d hd => (h.structs d hd).types, h.targets⟩

/-- The types in the shape resolve. -/
def Shape.Complete (s : Schema) : Shape → Prop
  | prim _ | enum _ => True
  | struct d => ∀ f ∈ d.fieldDefs, s.Resolves f.type
  | list elem | set elem => s.Resolves elem
  | map key value => s.Resolves key ∧ s.Resolves value

namespace StructDef.Keyed

variable {d : StructDef}

theorem field?_eq (h : d.Keyed) {f : FieldDef} (hf : f ∈ d.fieldDefs) :
    d.field? f.index = some f := by
  obtain ⟨e, he, rfl⟩ := List.mem_map.mp hf
  have hk := h.own e he
  unfold field?
  rw [← hk]
  exact Table.find?_of_mem h.indices he

theorem of_field? (h : d.Keyed) {index : Int16} {f : FieldDef} (hf : d.field? index = some f) :
    f ∈ d.fieldDefs ∧ f.index = index := by
  have hmem := Table.mem_of_find? hf
  exact ⟨List.mem_map_of_mem (f := Prod.snd) hmem, (h.own _ hmem).symm⟩

end StructDef.Keyed

theorem StructDef.Regular.isKeyed {s : Schema} {d : StructDef} (h : d.Regular s) : d.Keyed :=
  ⟨h.keyed, h.indices, h.names⟩

theorem Schema.Regular.isKeyed {s : Schema} (h : s.Regular) : s.Keyed :=
  ⟨fun d hd => (h.structs d hd).isKeyed, h.enums⟩

namespace Schema

variable {s : Schema} {name : String}

theorem lookup_cases {c : Definition} (h : s.lookup name = some c) :
    (∃ d, c = .struct d ∧ s.structs.find? name = some d) ∨
      (∃ d, c = .exception d ∧ s.exceptions.find? name = some d) ∨
      ∃ d, c = .enum d ∧ s.enums.find? name = some d := by
  unfold lookup at h
  cases hstruct : s.structs.find? name with
  | some d => exact .inl ⟨d, by simpa [hstruct] using h.symm, rfl⟩
  | none =>
    cases hexception : s.exceptions.find? name with
    | some d => exact .inr (.inl ⟨d, by simpa [hstruct, hexception] using h.symm, rfl⟩)
    | none =>
      obtain ⟨d, hd, hc⟩ := Option.map_eq_some_iff.mp (by simpa [hstruct, hexception] using h)
      exact .inr (.inr ⟨d, hc.symm, hd⟩)

theorem mem_structDefs {d : StructDef}
    (h : s.structs.find? name = some d ∨ s.exceptions.find? name = some d) :
    d ∈ s.structDefs := by
  unfold structDefs
  rw [List.mem_append]
  exact h.imp (fun h => List.mem_map_of_mem (f := Prod.snd) (Table.mem_of_find? h))
    (fun h => List.mem_map_of_mem (f := Prod.snd) (Table.mem_of_find? h))

end Schema

def Definition.shape : Definition → Shape
  | struct d | exception d => .struct d
  | enum d => .enum d

namespace Codec

variable {s : Schema} {name : String} {hops : Nat}

theorem resolveWithin_of_lookup {c : Definition} (h : s.lookup name = some c) :
    resolveWithin s hops (.named name) = .ok c.shape := by
  unfold resolveWithin
  rw [h]
  cases c <;> rfl

/-- A name that is not defined stands for the target of an alias. -/
theorem resolveWithin_named_cases {shape : Shape}
    (h : resolveWithin s hops (.named name) = .ok shape) :
    (∃ c, s.lookup name = some c ∧ shape = c.shape) ∨
      ∃ rest target, hops = rest + 1 ∧ s.typedefs.find? name = some target ∧
        resolveWithin s rest target = .ok shape := by
  cases hc : s.lookup name with
  | some c =>
    rw [resolveWithin_of_lookup hc] at h
    exact .inl ⟨c, rfl, (Except.ok.inj h).symm⟩
  | none =>
    unfold resolveWithin at h
    rw [hc] at h
    cases hops with
    | zero => cases h
    | succ rest =>
      cases ht : s.typedefs.find? name with
      | none => simp [ht] at h
      | some target => exact .inr ⟨rest, target, rfl, rfl, by simpa [ht] using h⟩

/-- Aliases are followed to a type that needs no alias. -/
theorem resolveWithin_last {ty : Ty} {shape : Shape} (h : resolveWithin s hops ty = .ok shape) :
    ∃ last, (last = ty ∨ ∃ e ∈ s.typedefs, e.2 = last) ∧ resolveWithin s 0 last = .ok shape := by
  induction hops using Nat.strongRecOn generalizing ty with
  | ind hops ih =>
    cases ty with
    | named name =>
      rcases resolveWithin_named_cases h with ⟨c, hc, rfl⟩ | ⟨rest, target, rfl, ht, h⟩
      · exact ⟨.named name, .inl rfl, resolveWithin_of_lookup hc⟩
      · obtain ⟨last, hlast, h⟩ := ih rest (Nat.lt_succ_self rest) h
        refine ⟨last, .inr ?_, h⟩
        rcases hlast with rfl | hlast
        · exact ⟨_, Table.mem_of_find? ht, rfl⟩
        · exact hlast
    | _ => exact ⟨_, .inl rfl, by unfold resolveWithin at h ⊢; exact h⟩

/-- A definition that a type comes down to is one of the schema. -/
theorem exists_lookup_of_resolve {ty : Ty} {shape : Shape} (h : resolve s ty = .ok shape)
    (hshape : (∃ d, shape = .struct d) ∨ ∃ d, shape = .enum d) :
    ∃ name c, s.lookup name = some c ∧ shape = c.shape := by
  obtain ⟨last, -, h⟩ := resolveWithin_last h
  cases last with
  | named name =>
    rcases resolveWithin_named_cases h with ⟨c, hc, hshape⟩ | ⟨_, _, hzero, _⟩
    · exact ⟨name, c, hc, hshape⟩
    · cases hzero
  | _ =>
    cases h
    rcases hshape with ⟨_, heq⟩ | ⟨_, heq⟩ <;> cases heq

theorem mem_structDefs_of_resolve {ty : Ty} {d : StructDef} (h : resolve s ty = .ok (.struct d)) :
    d ∈ s.structDefs := by
  obtain ⟨name, c, hc, hshape⟩ := exists_lookup_of_resolve h (.inl ⟨d, rfl⟩)
  rcases Schema.lookup_cases hc with ⟨d', rfl, hd⟩ | ⟨d', rfl, hd⟩ | ⟨d', rfl, hd⟩
  · cases hshape
    exact Schema.mem_structDefs (.inl hd)
  · cases hshape
    exact Schema.mem_structDefs (.inr hd)
  · cases hshape

theorem mem_enums_of_resolve {ty : Ty} {d : EnumDef} (h : resolve s ty = .ok (.enum d)) :
    ∃ name, (name, d) ∈ s.enums := by
  obtain ⟨name, c, hc, hshape⟩ := exists_lookup_of_resolve h (.inr ⟨d, rfl⟩)
  rcases Schema.lookup_cases hc with ⟨d', rfl, -⟩ | ⟨d', rfl, -⟩ | ⟨d', rfl, hd⟩
  · cases hshape
  · cases hshape
  · cases hshape
    exact ⟨name, Table.mem_of_find? hd⟩

/-- The types in what a type resolves to resolve. -/
theorem resolve_complete (hs : s.Complete) {ty : Ty} {shape : Shape} (hty : s.Resolves ty)
    (h : resolve s ty = .ok shape) : shape.Complete s := by
  have hdefined : ∀ d, shape = .struct d → shape.Complete s := by
    rintro d rfl
    exact hs.fields d (mem_structDefs_of_resolve h)
  obtain ⟨last, hlast, h⟩ := resolveWithin_last h
  have hl : s.Resolves last := by
    rcases hlast with rfl | ⟨e, he, rfl⟩
    · exact hty
    · exact hs.targets e he
  cases last with
  | named name =>
    rcases resolveWithin_named_cases h with ⟨c, -, rfl⟩ | ⟨_, _, hzero, _⟩
    · cases c with
      | struct d => exact hdefined d rfl
      | exception d => exact hdefined d rfl
      | enum d => trivial
    · cases hzero
  | prim p => cases h; trivial
  | list elem => cases h; exact hl
  | set elem => cases h; exact hl
  | map key value =>
    cases h
    exact ⟨fun n hn => hl n (List.mem_append_left _ hn),
      fun n hn => hl n (List.mem_append_right _ hn)⟩

/-- What a type resolves to is regular. -/
theorem resolve_regular (hs : s.Regular) {ty : Ty} {shape : Shape} (hty : s.Resolves ty)
    (h : resolve s ty = .ok shape) : shape.Regular s := by
  have hcomplete := resolve_complete hs.complete hty h
  cases shape with
  | prim p => trivial
  | enum d =>
    obtain ⟨name, hd⟩ := mem_enums_of_resolve h
    exact hs.enums _ hd
  | struct d => exact hs.structs d (mem_structDefs_of_resolve h)
  | list elem => exact hcomplete
  | set elem => exact hcomplete
  | map key value => exact hcomplete

/-- Every type whose names resolve comes down to a shape. -/
theorem exists_resolve {ty : Ty} (hty : s.Resolves ty) : ∃ shape, resolve s ty = .ok shape := by
  cases ty with
  | named name =>
    have h := hty name List.mem_cons_self
    cases hr : resolve s (.named name) with
    | ok shape => exact ⟨shape, rfl⟩
    | error fault => rw [hr] at h; cases h
  | prim p => exact ⟨.prim p, rfl⟩
  | list elem => exact ⟨.list elem, rfl⟩
  | set elem => exact ⟨.set elem, rfl⟩
  | map key value => exact ⟨.map key value, rfl⟩

theorem wireType_eq {ty : Ty} {shape : Shape} (h : resolve s ty = .ok shape) :
    wireType s ty = .ok shape.wireType := by
  unfold wireType
  rw [h]
  rfl

end Codec

end ThriftRpc
