import ThriftRpc.Proofs.Compile.Regular

/-!
# Results and exceptions apart

The struct that carries a reply has a field for the result and one for each declared exception.
Compiling keeps the exceptions of a function apart from one another, but not from the result, whose
index and name they may take: in a compiled schema the fields are apart exactly if no exception of a
function with a result does so (`resultStruct_apart_iff`).
-/

namespace ThriftRpc

namespace FunctionDef

/-- The result and each declared exception have one field each, at an index and under a name of its
own, by which it is found. -/
structure ResultApart (f : FunctionDef) : Prop where
  fields : f.resultStruct.fieldDefs = f.resultFields
  indices : (f.resultStruct.fieldDefs.map FieldDef.index).Nodup
  names : f.resultStruct.fieldNames.Nodup
  indexed : ∀ d ∈ f.resultFields, f.resultStruct.field? d.index = some d
  named : ∀ d ∈ f.resultFields, f.resultStruct.fieldNamed? d.name = some d

variable {f : FunctionDef}

theorem resultFields_of_returns {ty : Ty} (h : f.returns = some ty) :
    f.resultFields = { index := 0, name := "success", type := ty } :: f.throws := by
  unfold resultFields
  rw [h]
  rfl

theorem resultFields_of_void (h : f.returns = none) : f.resultFields = f.throws := by
  unfold resultFields
  rw [h]
  rfl

/-- Fields with distinct indices and names are all kept. -/
theorem resultApart_of_fieldsApart (h : Compile.FieldsApart f.resultFields) : f.ResultApart := by
  have hdefs := f.resultStruct_fieldDefs h
  have hfields : f.resultStruct.fields = f.resultFields.map fun d => (d.index, d) :=
    Compile.ofFields_fields h
  have hnames : f.resultStruct.fieldNames.Nodup := by
    unfold StructDef.fieldNames
    rw [hdefs]
    exact h.names
  refine ⟨hdefs, hdefs ▸ h.indices, hnames, fun d hd => ?_, fun d hd => ?_⟩
  · refine Table.find?_of_mem ?_ (hfields ▸ List.mem_map_of_mem (f := fun d => (d.index, d)) hd)
    rw [hfields, List.map_map]
    exact h.indices
  · exact StructDef.fieldNamed?_eq hnames (hdefs ▸ hd)

/-- An exception with the index or the name of the result is not apart from it. -/
theorem ResultApart.throwsApart (h : f.ResultApart) {ty : Ty} (hreturns : f.returns = some ty) :
    f.ThrowsApart := by
  have hindices := h.indices
  have hnames := h.names
  unfold StructDef.fieldNames at hnames
  rw [h.fields, resultFields_of_returns hreturns, List.map_cons, List.nodup_cons] at hindices hnames
  intro d hd
  refine ⟨fun hname => hnames.1 ?_, fun hindex => hindices.1 ?_⟩
  · show "success" ∈ f.throws.map FieldDef.name
    exact hname ▸ List.mem_map_of_mem (f := FieldDef.name) hd
  · show 0 ∈ f.throws.map FieldDef.index
    exact hindex ▸ List.mem_map_of_mem (f := FieldDef.index) hd

end FunctionDef

namespace Compile

variable {config : Config} {library : Library} {root : Option Files.Path} {nodes : List Idl.Node}
  {s : Schema} {f : FunctionDef}

/-- In a compiled schema the result and the declared exceptions of a function are apart if it has no
result, or if none of them takes its index or its name; and only then. -/
theorem resultStruct_apart_iff (h : compile config library root nodes = .ok s)
    (hf : f ∈ s.functions) : f.ResultApart ↔ f.returns = none ∨ f.ThrowsApart := by
  obtain ⟨-, -, -, hclosed⟩ := compile_ok h
  have hthrows := (hclosed.functions f hf).2
  constructor
  · intro hapart
    cases hreturns : f.returns with
    | none => exact .inl rfl
    | some ty => exact .inr (hapart.throwsApart hreturns)
  · rintro (hvoid | hapart)
    · refine FunctionDef.resultApart_of_fieldsApart ?_
      rw [FunctionDef.resultFields_of_void hvoid]
      exact hthrows
    · exact FunctionDef.resultApart_of_fieldsApart (FunctionDef.resultFields_apart hapart hthrows)

/-- The program with a tree in it keeps what growing one gives apart from what it may lack. -/
theorem resultStruct_apart_grow :
    compile {} (.listed []) none treeProgram = .ok treeSchema ∧
      ∃ f ∈ treeSchema.functions, f.returns = some (.set (.named "Tree")) ∧
        f.throws.map FieldDef.name = ["missing"] ∧ f.ResultApart := by
  have hf : (⟨"grow", some (.set (.named "Tree")), [⟨1, "seed", .named "Tree", none, none⟩],
      [⟨1, "missing", .named "Missing", none, none⟩], false⟩ : FunctionDef) ∈
        treeSchema.functions := List.mem_singleton.mpr rfl
  exact ⟨compile_tree, _, hf, rfl, rfl,
    (resultStruct_apart_iff compile_tree hf).mpr (.inr (by decide))⟩

/-- A pump whose exception takes the index of the level in one function, and the name of the rate in
the other. -/
def pumpProgram : List Idl.Node :=
  let throwing (index : Int64) (name : String) : List Idl.Field :=
    [⟨some index, none, .named "Empty", name, none⟩]
  [.exception "Empty" [],
    .service "Pump" none
      [⟨"level", some (.prim .i32), [], throwing 0 "empty", false⟩,
        ⟨"rate", some (.prim .i32), [], throwing 1 "success", false⟩]]

/-- Both functions are accepted. Of the fields of the first only the exception is left, and the two
of the second share a name. -/
theorem pump_results_taken :
    ∃ s level rate, compile {} (.listed []) none pumpProgram = .ok s ∧
      s.functions = [level, rate] ∧
      level.returns = some (.prim .i32) ∧ level.resultStruct.fieldNames = ["empty"] ∧
      rate.returns = some (.prim .i32) ∧ rate.resultStruct.fieldNames = ["success", "success"] ∧
      ¬ level.ResultApart ∧ ¬ rate.ResultApart := by
  refine ⟨_, _, _, rfl, rfl, rfl, rfl, rfl, rfl, fun h => ?_, fun h => ?_⟩
  · have hlength := congrArg List.length h.fields
    cases hlength
  · have hnames := h.names
    revert hnames
    decide

end Compile

end ThriftRpc
