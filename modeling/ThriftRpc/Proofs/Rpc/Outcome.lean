import Mathlib.Data.List.Nodup
import ThriftRpc.Proofs.Codec.Prepare
import ThriftRpc.Proofs.Compile.Regular
import ThriftRpc.Rpc.Client
import ThriftRpc.Rpc.Processor

/-!
# Outcomes of handlers

What a call reports for an outcome that fits the declaration of its function (`reported`). The
struct in which such an outcome travels is prepared and stands for it at the client
(`preparedResult_of_reported`); any other outcome is an internal error
(`preparedResult_of_unreported`).
-/

namespace ThriftRpc

namespace Codec

variable {s : Schema} {d : StructDef} {f : FieldDef} {v : Value}

theorem prepareStruct_empty (hd : d.fieldNames.Nodup) :
    prepareStruct s d (.struct d.name []) = .ok (.struct d.name []) := by
  let fields : List (String × Value) := []
  show assemble d d.name (fields.map Prod.fst) (fun f => prepareField s f fields) = _
  exact assemble_eq hd (List.nil_sublist _) fun _ _ => rfl

theorem prepareField_single (f g : FieldDef) :
    prepareField s g [(f.name, v)] = if f.name = g.name then some <$> prepare s g.type v
      else .ok none := by
  rw [prepareField_eq]
  by_cases hname : f.name = g.name
  · simp [Table.find?, hname]
  · simp [Table.find?, hname]

theorem prepareStruct_single {w : Value} (hd : d.fieldNames.Nodup) (hf : f ∈ d.fieldDefs)
    (h : prepare s f.type v = .ok w) :
    prepareStruct s d (.struct d.name [(f.name, v)]) = .ok (.struct d.name [(f.name, w)]) := by
  let fields : List (String × Value) := [(f.name, w)]
  have hname : f.name ∈ d.fieldNames := List.mem_map_of_mem (f := FieldDef.name) hf
  show assemble d d.name (fields.map Prod.fst) (fun g => prepareField s g [(f.name, v)]) =
    .ok (.struct d.name fields)
  refine assemble_eq hd (List.singleton_sublist.mpr hname) fun g hg => ?_
  rw [prepareField_single]
  by_cases hname : f.name = g.name
  · cases List.inj_on_of_nodup_map hd hf hg hname
    simp [Table.find?, fields, h]
  · simp [Table.find?, fields, hname]

/-- A struct with a field that does not prepare does not either. -/
theorem prepare_of_prepareStruct_single {p : Value} (hd : d.fieldNames.Nodup)
    (hf : f ∈ d.fieldDefs) (h : prepareStruct s d (.struct d.name [(f.name, v)]) = .ok p) :
    ∃ w, prepare s f.type v = .ok w := by
  obtain ⟨given, fields, hgiven, -, -, -, hfield⟩ := prepareStruct_ok hd h
  cases hgiven
  have hfound := hfield f hf
  rw [prepareField_single, if_pos rfl] at hfound
  obtain ⟨w, hw, -⟩ := map_eq_ok hfound
  exact ⟨w, hw⟩

end Codec

namespace Rpc

open Codec (prepare prepareStruct)

variable {s : Schema} {f : FunctionDef} {outcome : Except HandlerFault (Option Value)}

/-- What a call of `f` reports for an outcome that fits the declaration of `f`. -/
def reported (s : Schema) (f : FunctionDef) :
    Except HandlerFault (Option Value) → Option (Except CallFault (Option Value))
  | .ok none => some (.ok none)
  | .ok (some v) =>
    match f.returns with
    | none => some (.ok none)
    | some ty => (prepare s ty v).toOption.map fun w => .ok (some w)
  | .error (.declared (.struct name fields)) =>
    if .named name ∈ f.throws.map FieldDef.type then
      (prepare s (.named name) (.struct name fields)).toOption.map fun w => .error (.declared w)
    else none
  | .error _ => none

/-- What a call of `f` returns for an outcome. -/
def Processor.replied (p : Processor) (f : FunctionDef)
    (outcome : Except HandlerFault (Option Value)) : Except CallFault (Option Value) :=
  match p.preparedResult f outcome with
  | .ok result => Client.outcome f result
  | .error text => .error (.application ⟨.internalError, text⟩)

/-- The result is the report; where there is none, it is an internal error. -/
def Reports (result : Except CallFault (Option Value)) :
    Option (Except CallFault (Option Value)) → Prop
  | some report => result = report
  | none => ∃ text, result = .error (.application ⟨.internalError, text⟩)

theorem reported_result {ty : Ty} (h : f.returns = some ty) (v : Value) :
    reported s f (.ok (some v)) = (prepare s ty v).toOption.map fun w => .ok (some w) := by
  simp only [reported, h]

theorem reported_void (h : f.returns = none) (v : Value) :
    reported s f (.ok (some v)) = some (.ok none) := by
  simp only [reported, h]

theorem reported_declared {name : String} (h : .named name ∈ f.throws.map FieldDef.type)
    (fields : List (String × Value)) :
    reported s f (.error (.declared (.struct name fields))) =
      (prepare s (.named name) (.struct name fields)).toOption.map
        fun w => .error (.declared w) := by
  simp only [reported, h, if_true]

theorem reported_undeclared {name : String} (h : .named name ∉ f.throws.map FieldDef.type)
    (fields : List (String × Value)) :
    reported s f (.error (.declared (.struct name fields))) = none := by
  simp only [reported, h, if_false]

/-! ## Result structs -/

theorem throwsFieldFor?_eq {name : String} {d : FieldDef} (h : f.throwsFieldFor? name = some d) :
    d ∈ f.throws ∧ d.type = .named name := by
  unfold FunctionDef.throwsFieldFor? at h
  exact ⟨List.mem_of_find?_eq_some h, by simpa using List.find?_some h⟩

theorem exists_throwsFieldFor? {name : String} (h : .named name ∈ f.throws.map FieldDef.type) :
    ∃ d, f.throwsFieldFor? name = some d := by
  obtain ⟨d, hd, htype⟩ := List.mem_map.mp h
  refine Option.isSome_iff_exists.mp ?_
  unfold FunctionDef.throwsFieldFor?
  rw [List.find?_isSome]
  exact ⟨d, hd, by simpa using htype⟩

theorem mem_resultFields_throws {d : FieldDef} (h : d ∈ f.throws) : d ∈ f.resultFields :=
  List.mem_append_right _ h

theorem mem_resultFields_returns {ty : Ty} (h : f.returns = some ty) :
    { index := 0, name := "success", type := ty : FieldDef } ∈ f.resultFields := by
  unfold FunctionDef.resultFields
  simp [h]

/-- A result bears no exception. -/
theorem outcome_success (h : f.ThrowsApart) (name : String) (v : Value) :
    Client.outcome f (.struct name [("success", v)]) = .ok (some v) := by
  have hthrows : (f.throws.findSome? fun d =>
      (Value.struct name [("success", v)]).get? d.name) = none := by
    refine List.findSome?_eq_none_iff.mpr fun d hd => ?_
    have hne : "success" ≠ d.name := fun he => (h d hd).1 he.symm
    simp [Value.get?, Table.find?, hne]
  unfold Client.outcome
  rw [hthrows]
  simp [Value.get?, Table.find?]

theorem outcome_empty (f : FunctionDef) (name : String) :
    Client.outcome f (.struct name []) = .ok none := by
  have hthrows : (f.throws.findSome? fun d => (Value.struct name []).get? d.name) = none :=
    List.findSome?_eq_none_iff.mpr fun _ _ => rfl
  unfold Client.outcome
  rw [hthrows]
  rfl

theorem outcome_declared {d : FieldDef} (hd : d ∈ f.throws) (name : String) (v : Value) :
    Client.outcome f (.struct name [(d.name, v)]) = .error (.declared v) := by
  have hthrows : (f.throws.findSome? fun e =>
      (Value.struct name [(d.name, v)]).get? e.name) = some v := by
    cases h : f.throws.findSome? fun e => (Value.struct name [(d.name, v)]).get? e.name with
    | none =>
      have hnone := List.findSome?_eq_none_iff.mp h d hd
      simp [Value.get?, Table.find?] at hnone
    | some w =>
      obtain ⟨e, -, he⟩ := List.exists_of_findSome?_eq_some h
      by_cases hname : d.name = e.name
      · simpa [Value.get?, Table.find?, hname, eq_comm] using he
      · simp [Value.get?, Table.find?, hname] at he
  unfold Client.outcome
  rw [hthrows]

/-! ## Replies -/

namespace Processor

variable {p : Processor}

theorem preparedResult_of_resultStruct {result : Value} (h : resultStruct f outcome = .ok result) :
    p.preparedResult f outcome =
      (prepareStruct p.schema f.resultStruct result).mapError (·.message) := by
  unfold preparedResult
  rw [h]
  rfl

theorem reports_struct {result prepared : Value} (h : resultStruct f outcome = .ok result)
    (hp : prepareStruct p.schema f.resultStruct result = .ok prepared) :
    Reports (p.replied f outcome) (some (Client.outcome f prepared)) := by
  unfold replied
  rw [preparedResult_of_resultStruct h, hp]
  rfl

theorem reports_failed {text : String} (h : resultStruct f outcome = .error text) :
    Reports (p.replied f outcome) none := by
  refine ⟨text, ?_⟩
  unfold replied preparedResult
  rw [h]
  rfl

theorem reports_empty (hd : f.resultStruct.fieldNames.Nodup)
    (h : resultStruct f outcome = .ok (.struct f.resultStruct.name [])) :
    Reports (p.replied f outcome) (some (.ok none)) :=
  outcome_empty f f.resultStruct.name ▸ reports_struct h (Codec.prepareStruct_empty hd)

/-- A field of the result struct is reported if it prepares. -/
theorem reports_field (hd : f.resultStruct.fieldNames.Nodup) {d : FieldDef} {v : Value}
    (hmem : d ∈ f.resultStruct.fieldDefs)
    (h : resultStruct f outcome = .ok (.struct f.resultStruct.name [(d.name, v)])) :
    Reports (p.replied f outcome) ((prepare p.schema d.type v).toOption.map fun w =>
      Client.outcome f (.struct f.resultStruct.name [(d.name, w)])) := by
  cases hv : prepare p.schema d.type v with
  | ok w => exact reports_struct h (Codec.prepareStruct_single hd hmem hv)
  | error fault =>
    cases hp : prepareStruct p.schema f.resultStruct (.struct f.resultStruct.name [(d.name, v)]) with
    | error fault' =>
      refine ⟨fault'.message, ?_⟩
      unfold replied
      rw [preparedResult_of_resultStruct h, hp]
      rfl
    | ok prepared =>
      obtain ⟨w, hw⟩ := Codec.prepare_of_prepareStruct_single hd hmem hp
      rw [hv] at hw
      cases hw

theorem reports_declared (hd : f.resultStruct.fieldNames.Nodup)
    (hdefs : f.resultStruct.fieldDefs = f.resultFields) (name : String)
    (fields : List (String × Value)) :
    Reports (p.replied f (.error (.declared (.struct name fields))))
      (reported p.schema f (.error (.declared (.struct name fields)))) := by
  cases hfield : f.throwsFieldFor? name with
  | some d =>
    obtain ⟨hmem, htype⟩ := throwsFieldFor?_eq hfield
    have hname : .named name ∈ f.throws.map FieldDef.type :=
      htype ▸ List.mem_map_of_mem (f := FieldDef.type) hmem
    have hresult : resultStruct f (.error (.declared (.struct name fields))) =
        .ok (.struct f.resultStruct.name [(d.name, .struct name fields)]) := by
      simp only [resultStruct, hfield]
    have hreports := reports_field (p := p) hd (hdefs ▸ mem_resultFields_throws hmem) hresult
    simp only [outcome_declared hmem] at hreports
    rwa [reported_declared hname, ← htype]
  | none =>
    have hname : .named name ∉ f.throws.map FieldDef.type := by
      intro h
      obtain ⟨d, hd⟩ := exists_throwsFieldFor? h
      rw [hfield] at hd
      cases hd
    rw [reported_undeclared hname]
    exact reports_failed (by simp only [resultStruct, hfield]; rfl)

/-- The client is told what the outcome means by the declaration of the function, and otherwise of
an internal error. -/
theorem reports_reported (hthrows : f.ThrowsApart) (hd : f.resultStruct.fieldNames.Nodup)
    (hdefs : f.resultStruct.fieldDefs = f.resultFields)
    (outcome : Except HandlerFault (Option Value)) :
    Reports (p.replied f outcome) (reported p.schema f outcome) := by
  cases outcome with
  | ok v =>
    cases v with
    | none => exact reports_empty hd (by simp [resultStruct])
    | some v =>
      cases hreturns : f.returns with
      | none =>
        rw [reported_void hreturns]
        exact reports_empty hd (by simp [resultStruct, hreturns])
      | some ty =>
        have hresult : resultStruct f (.ok (some v)) =
            .ok (.struct f.resultStruct.name [("success", v)]) := by
          simp [resultStruct, hreturns]
        have hreports :=
          reports_field (p := p) hd (hdefs ▸ mem_resultFields_returns hreturns) hresult
        simp only [outcome_success hthrows] at hreports
        rwa [reported_result hreturns]
  | error fault =>
    cases fault with
    | failed text => exact reports_failed rfl
    | declared e =>
      cases e with
      | struct name fields => exact reports_declared hd hdefs name fields
      | _ => exact reports_failed rfl

end Processor

end Rpc

end ThriftRpc
