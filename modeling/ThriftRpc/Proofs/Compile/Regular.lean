import ThriftRpc.Proofs.Compile.Closed

/-!
# Closed schemas are regular

The codec asks of a schema what compiling gives it. The structs that carry the arguments and the
result of a function are regular too; the latter if no exception takes the place of the result.
-/

namespace ThriftRpc

open Compile (Closed FieldsApart)

variable {s : Schema}

theorem Schema.Grounds.resolves {ty : Ty} (h : s.Grounds ty) : s.Resolves ty := by
  intro name hn
  obtain ⟨c, hc⟩ := Option.isSome_iff_exists.mp (h name hn)
  unfold Codec.resolve
  rw [Codec.resolveWithin_of_lookup hc]
  rfl

/-- A field of a new name keeps a struct regular, whether it is added or takes a place. -/
theorem StructDef.Regular.insert {name : String} {kind : StructKind} {t : Table Int16 FieldDef}
    {f : FieldDef} (h : StructDef.Regular s ⟨name, kind, t⟩)
    (hname : f.name ∉ StructDef.fieldNames ⟨name, kind, t⟩) (htype : s.Resolves f.type) :
    StructDef.Regular s ⟨name, kind, t.insert f.index f⟩ := by
  have hnames := h.names
  rw [StructDef.fieldNames_eq] at hname hnames
  refine ⟨fun e he => ?_, Table.nodup_keys_insert h.indices, ?_, fun g hg => ?_⟩
  · rcases Table.mem_insert he with rfl | he
    · rfl
    · exact h.keyed e he
  · rw [StructDef.fieldNames_eq]
    exact Table.nodup_map_insert (g := fun e : Int16 × FieldDef => e.2.name) hnames hname
  · obtain ⟨e, he, rfl⟩ := List.mem_map.mp hg
    rcases Table.mem_insert he with rfl | he
    · exact htype
    · exact h.types _ (List.mem_map_of_mem (f := Prod.snd) he)

/-- Names alone make fields regular: of two with one index, one is kept. -/
theorem ofFields_regular {defs : List FieldDef} (name : String) (kind : StructKind)
    (hnames : (defs.map FieldDef.name).Nodup) (htypes : ∀ f ∈ defs, s.Resolves f.type) :
    (StructDef.ofFields name kind defs).Regular s := by
  suffices h : ∀ t : Table Int16 FieldDef, StructDef.Regular s ⟨name, kind, t⟩ →
      (StructDef.fieldNames ⟨name, kind, t⟩ ++ defs.map FieldDef.name).Nodup →
      StructDef.Regular s ⟨name, kind, defs.foldl (fun t f => t.insert f.index f) t⟩ by
    unfold StructDef.ofFields Table.ofList
    rw [List.foldl_map]
    have hempty : StructDef.Regular s ⟨name, kind, []⟩ :=
      ⟨fun _ he => (nomatch he), List.nodup_nil, List.nodup_nil, fun _ hf => nomatch hf⟩
    exact h [] hempty hnames
  clear hnames
  induction defs with
  | nil => exact fun t ht _ => ht
  | cons f defs ih =>
    intro t ht hnames
    rw [List.forall_mem_cons] at htypes
    rw [List.map_cons, List.nodup_middle, List.nodup_cons, List.mem_append, not_or] at hnames
    refine ih htypes.2 _ (ht.insert hnames.1.1 htypes.1) ?_
    have hapart := List.nodup_append.mp hnames.2
    refine List.nodup_append.mpr
      ⟨(ht.insert hnames.1.1 htypes.1).names, hapart.2.1, fun n hn m hm => ?_⟩
    obtain ⟨g, hg, rfl⟩ := List.mem_map.mp hn
    obtain ⟨e, he, rfl⟩ := List.mem_map.mp hg
    rcases Table.mem_insert he with rfl | he
    · exact fun heq => hnames.1.2 (heq ▸ hm)
    · have hg : e.2 ∈ StructDef.fieldDefs ⟨name, kind, t⟩ := List.mem_map_of_mem (f := Prod.snd) he
      exact hapart.2.2 _ (List.mem_map_of_mem (f := FieldDef.name) hg) m hm

/-- Of fields with one index one is kept, and none is added. -/
theorem mem_of_mem_ofFields {defs : List FieldDef} {name : String} {kind : StructKind} {f : FieldDef}
    (h : f ∈ (StructDef.ofFields name kind defs).fieldDefs) : f ∈ defs := by
  suffices hrun : ∀ t : Table Int16 FieldDef, ∀ e ∈ defs.foldl (fun t f => t.insert f.index f) t,
      e ∈ t ∨ e.2 ∈ defs by
    obtain ⟨e, he, rfl⟩ := List.mem_map.mp h
    unfold StructDef.ofFields Table.ofList at he
    rw [List.foldl_map] at he
    exact (hrun [] e he).resolve_left List.not_mem_nil
  clear h
  induction defs with
  | nil => exact fun t e he => .inl he
  | cons g defs ih =>
    intro t e he
    rcases ih _ e he with he | he
    · rcases Table.mem_insert he with rfl | he
      · exact .inr List.mem_cons_self
      · exact .inl he
    · exact .inr (List.mem_cons_of_mem _ he)

theorem ofFields_fieldDefs {defs : List FieldDef} (name : String) (kind : StructKind)
    (h : FieldsApart defs) : (StructDef.ofFields name kind defs).fieldDefs = defs := by
  have hfields : (StructDef.ofFields name kind defs).fields = defs.map fun f => (f.index, f) :=
    Compile.ofFields_fields h
  unfold StructDef.fieldDefs
  rw [hfields, List.map_map]
  simp [Function.comp_def]

namespace Compile.Closed

theorem grounds (h : Closed s) {ty : Ty} (hty : ty ∈ s.types) : s.Grounds ty :=
  fun name hn => (h.types ty hty name hn).1

theorem resolves (h : Closed s) {ty : Ty} (hty : ty ∈ s.types) : s.Resolves ty :=
  (h.grounds hty).resolves

/-- A name that stands for a definition or for an alias resolves. -/
theorem resolves_of_isDefined (h : Closed s) {ty : Ty}
    (hty : ∀ name ∈ ty.names, s.isDefined name = true) : s.Resolves ty := by
  intro name hn
  cases hlookup : s.lookup name with
  | some c =>
    unfold Codec.resolve
    rw [Codec.resolveWithin_of_lookup hlookup]
    rfl
  | none =>
    have hdefined := hty name hn
    unfold Schema.isDefined at hdefined
    rw [hlookup, Option.isSome_none, Bool.false_or] at hdefined
    obtain ⟨target, htarget⟩ := Option.isSome_iff_exists.mp hdefined
    have hmem : target ∈ s.types := by
      unfold Schema.types
      simp only [List.mem_append]
      exact .inl (.inr (List.mem_map_of_mem (f := Prod.snd) (Table.mem_of_find? htarget)))
    obtain ⟨shape, hshape⟩ := Compile.resolveWithin_of_grounds (h.grounds hmem)
    unfold Codec.resolve Codec.resolveWithin
    simp only [hlookup, Codec.aliasLimit, htarget, hshape]
    rfl

theorem structs_regular (h : Closed s) : ∀ d ∈ s.structDefs, d.Regular s := by
  intro d hd
  have hapart := h.fields d hd
  have hkeys : d.fields.map Prod.fst = d.fieldDefs.map FieldDef.index := by
    unfold StructDef.fieldDefs
    rw [List.map_map]
    exact List.map_congr_left (h.keyed d hd)
  refine ⟨h.keyed d hd, hkeys ▸ hapart.indices, hapart.names, fun f hf => h.resolves ?_⟩
  unfold Schema.types
  simp only [List.mem_append]
  exact .inl (.inl (.inl (List.mem_flatMap.mpr
    ⟨d, hd, List.mem_map_of_mem (f := FieldDef.type) hf⟩)))

theorem structs_keyed (h : Closed s) : ∀ d ∈ s.structDefs, d.Keyed :=
  fun d hd => (h.structs_regular d hd).isKeyed

theorem structs_names (h : Closed s) : ∀ d ∈ s.structDefs, d.fieldNames.Nodup :=
  fun d hd => (h.structs_regular d hd).names

theorem complete (h : Closed s) : s.Complete where
  fields := fun d hd => (h.structs_regular d hd).types
  targets := by
    intro e he
    refine h.resolves ?_
    unfold Schema.types
    simp only [List.mem_append]
    exact .inl (.inr (List.mem_map_of_mem (f := Prod.snd) he))

theorem regular (h : Closed s) (hcoded : ∀ e ∈ s.enums, e.2.Coded) : s.Regular where
  structs := h.structs_regular
  targets := h.complete.targets
  enums := hcoded

section Function

variable {f : FunctionDef}

theorem function_resolves (h : Closed s) (hf : f ∈ s.functions) {ty : Ty} (hty : ty ∈ f.types) :
    s.Resolves ty := by
  refine h.resolves ?_
  unfold Schema.types
  simp only [List.mem_append]
  exact .inl (.inl (.inr (List.mem_flatMap.mpr ⟨f, hf, hty⟩)))

theorem argument_resolves (h : Closed s) (hf : f ∈ s.functions) {d : FieldDef}
    (hd : d ∈ f.arguments) : s.Resolves d.type := by
  refine h.function_resolves hf ?_
  unfold FunctionDef.types
  simp only [List.mem_append]
  exact .inl (.inr (List.mem_map_of_mem (f := FieldDef.type) hd))

theorem throws_resolves (h : Closed s) (hf : f ∈ s.functions) {d : FieldDef} (hd : d ∈ f.throws) :
    s.Resolves d.type := by
  refine h.function_resolves hf ?_
  unfold FunctionDef.types
  simp only [List.mem_append]
  exact .inr (List.mem_map_of_mem (f := FieldDef.type) hd)

theorem returns_resolves (h : Closed s) (hf : f ∈ s.functions) {ty : Ty}
    (hty : f.returns = some ty) : s.Resolves ty := by
  refine h.function_resolves hf ?_
  unfold FunctionDef.types
  simp [hty]

theorem argsStruct_regular (h : Closed s) (hf : f ∈ s.functions) : f.argsStruct.Regular s :=
  ofFields_regular _ _ (h.functions f hf).1.names fun _ hd => h.argument_resolves hf hd

end Function

end Compile.Closed

/-! ## Result structs -/

namespace FunctionDef

/-- The fields of the struct that carries a reply. -/
def resultFields (f : FunctionDef) : List FieldDef :=
  (f.returns.map fun t => { index := 0, name := "success", type := t : FieldDef }).toList ++ f.throws

theorem argsStruct_fieldDefs {f : FunctionDef} (h : FieldsApart f.arguments) :
    f.argsStruct.fieldDefs = f.arguments :=
  ofFields_fieldDefs _ _ h

theorem resultStruct_fieldDefs {f : FunctionDef} (h : FieldsApart f.resultFields) :
    f.resultStruct.fieldDefs = f.resultFields :=
  ofFields_fieldDefs _ _ h

/-- No declared exception takes the place or the name of the result. -/
def ThrowsApart (f : FunctionDef) : Prop := ∀ d ∈ f.throws, d.name ≠ "success" ∧ d.index ≠ 0

instance (f : FunctionDef) : Decidable f.ThrowsApart :=
  inferInstanceAs (Decidable (∀ d ∈ f.throws, _ ∧ _))

theorem resultFields_apart {f : FunctionDef} (h : f.ThrowsApart) (hthrows : FieldsApart f.throws) :
    FieldsApart f.resultFields := by
  unfold resultFields
  cases f.returns with
  | none => exact hthrows
  | some ty =>
    refine ⟨List.nodup_cons.mpr ⟨fun hm => ?_, hthrows.indices⟩,
      List.nodup_cons.mpr ⟨fun hm => ?_, hthrows.names⟩⟩
    · obtain ⟨d, hd, hindex⟩ := List.mem_map.mp hm
      exact (h d hd).2 hindex
    · obtain ⟨d, hd, hname⟩ := List.mem_map.mp hm
      exact (h d hd).1 hname

end FunctionDef

/-- The fields of a result have the types that the function declares. -/
theorem Compile.Closed.result_resolves (h : Closed s) {f : FunctionDef} (hf : f ∈ s.functions)
    {d : FieldDef} (hd : d ∈ f.resultFields) : s.Resolves d.type := by
  rcases List.mem_append.mp hd with hd | hd
  · obtain ⟨ty, hty, rfl⟩ := Option.map_eq_some_iff.mp (Option.mem_toList.mp hd)
    exact h.returns_resolves hf hty
  · exact h.throws_resolves hf hd

theorem Compile.Closed.resultStruct_regular (h : Closed s) {f : FunctionDef} (hf : f ∈ s.functions)
    (hnames : (f.resultFields.map FieldDef.name).Nodup) : f.resultStruct.Regular s :=
  ofFields_regular _ _ hnames fun _ hd => h.result_resolves hf hd

end ThriftRpc
