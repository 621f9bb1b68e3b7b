import ThriftRpc.Proofs.Codec.Conforms
import ThriftRpc.Proofs.Except

/-!
# What preparing gives

A prepared value conforms to its type, each struct with its fields in order of declaration
(`prepare_conforms`). An error leaves nothing, so each step is opened on success only.
-/

namespace ThriftRpc.Codec

variable {s : Schema} {ty : Ty} {v p : Value}

theorem eq_some_of_orMismatch {o : Option Value} (h : orMismatch ty v o = .ok p) : o = some p := by
  cases o with
  | none => cases h
  | some w => exact congrArg some (Except.ok.inj h)

theorem prepareItems_ok {elem : Ty} {items ps : List Value}
    (h : prepareItems s elem items = .ok ps) :
    List.Forall₂ (fun v p => prepare s elem v = .ok p) items ps := by
  induction items generalizing ps with
  | nil => unfold prepareItems at h; cases h; exact .nil
  | cons v items ih =>
    unfold prepareItems at h
    obtain ⟨p, hp, h⟩ := bind_eq_ok h
    obtain ⟨ps', hps, h⟩ := bind_eq_ok h
    cases h
    exact .cons hp (ih hps)

theorem prepareEntries_ok {key value : Ty} {entries ps : List (Value × Value)}
    (h : prepareEntries s key value entries = .ok ps) :
    List.Forall₂ (fun e p => prepare s key e.1 = .ok p.1 ∧ prepare s value e.2 = .ok p.2)
      entries ps := by
  induction entries generalizing ps with
  | nil => unfold prepareEntries at h; cases h; exact .nil
  | cons e entries ih =>
    unfold prepareEntries at h
    obtain ⟨k, hk, h⟩ := bind_eq_ok h
    obtain ⟨v, hv, h⟩ := bind_eq_ok h
    obtain ⟨ps', hps, h⟩ := bind_eq_ok h
    cases h
    exact .cons ⟨hk, hv⟩ (ih hps)

theorem prepareField_eq (f : FieldDef) (fields : List (String × Value)) :
    prepareField s f fields = match Table.find? f.name fields with
      | some v => some <$> prepare s f.type v
      | none => .ok none := by
  induction fields with
  | nil => rfl
  | cons e fields ih =>
    obtain ⟨name, v⟩ := e
    unfold prepareField Table.find?
    split
    · rfl
    · exact ih

theorem prepareField_ok {f : FieldDef} {fields : List (String × Value)} {o : Option Value}
    (h : prepareField s f fields = .ok o) :
    (Table.find? f.name fields = none ∧ o = none) ∨
      ∃ v w, Table.find? f.name fields = some v ∧ o = some w ∧ prepare s f.type v = .ok w := by
  rw [prepareField_eq] at h
  cases hv : Table.find? f.name fields with
  | none => rw [hv] at h; cases h; exact .inl ⟨rfl, rfl⟩
  | some v =>
    rw [hv] at h
    obtain ⟨w, hw, rfl⟩ := map_eq_ok h
    exact .inr ⟨v, w, rfl, rfl, hw⟩

/-! ## Structs -/

/-- Of fields with distinct names, those that are found arrive in order. -/
theorem foldlM_insert_ok {field : FieldDef → Except Fault (Option Value)}
    {defs : List (Int16 × FieldDef)} {done fields : List (String × Value)}
    (hd : (done.map Prod.fst ++ defs.map fun e => e.2.name).Nodup)
    (h : defs.foldlM (fun done f => do
      match ← field f.2 with
      | some v => return Table.insert f.2.name v done
      | none => return done) done = Except.ok fields) :
    ∃ more, fields = done ++ more ∧
      (more.map Prod.fst).Sublist (defs.map fun e => e.2.name) ∧
      ∀ e ∈ defs, field e.2 = .ok (Table.find? e.2.name more) := by
  induction defs generalizing done with
  | nil =>
    cases h
    exact ⟨[], by simp, List.Sublist.slnil, fun _ he => nomatch he⟩
  | cons e defs ih =>
    rw [List.foldlM_cons] at h
    obtain ⟨next, hnext, h⟩ := bind_eq_ok h
    obtain ⟨o, ho, hnext⟩ := bind_eq_ok hnext
    rw [List.map_cons] at hd ⊢
    have hrest := List.nodup_cons.mp (List.nodup_append.mp hd).2.1
    cases o with
    | none =>
      cases hnext
      obtain ⟨more, hmore, hsub, hfield⟩ := ih (hd.sublist (by simp)) h
      refine ⟨more, hmore, hsub.cons _, List.forall_mem_cons.mpr ⟨?_, hfield⟩⟩
      rw [ho, Table.find?_eq_none.mpr fun hm => hrest.1 (hsub.subset hm)]
    | some v =>
      cases hnext
      have hnew : e.2.name ∉ done.map Prod.fst := fun hm =>
        (List.nodup_append.mp hd).2.2 _ hm _ List.mem_cons_self rfl
      rw [Table.insert_of_not_mem v hnew] at h
      obtain ⟨more, hmore, hsub, hfield⟩ := ih (by simpa using hd) h
      refine ⟨(e.2.name, v) :: more, by simpa using hmore, hsub.cons_cons _,
        List.forall_mem_cons.mpr ⟨by simp [ho, Table.find?], fun e' he' => ?_⟩⟩
      have hne : e.2.name ≠ e'.2.name := fun he =>
        hrest.1 (he ▸ List.mem_map_of_mem (f := fun e => e.2.name) he')
      simpa [Table.find?, hne] using hfield e' he'

theorem assemble_ok {d : StructDef} {name : String} {given : List String}
    {field : FieldDef → Except Fault (Option Value)} (hd : d.fieldNames.Nodup)
    (h : assemble d name given field = .ok p) :
    name = d.name ∧ given ⊆ d.fieldNames ∧ ∃ fields, p = .struct d.name fields ∧
      d.InOrder (fields.map Prod.fst) ∧
      ∀ f ∈ d.fieldDefs, field f = .ok (Table.find? f.name fields) := by
  unfold assemble at h
  split at h
  · cases h
  next hname =>
    split at h
    · cases h
    next hgiven =>
      obtain ⟨fields, hfields, h⟩ := bind_eq_ok h
      cases h
      rw [d.fieldNames_eq] at hd
      obtain ⟨_, rfl, hsub, hfield⟩ := foldlM_insert_ok (by exact hd) hfields
      refine ⟨not_not.mp hname, fun f hf => ?_, fields, rfl, ?_, ?_⟩
      · have hf' := List.find?_eq_none.mp hgiven f hf
        rw [Option.isNone_iff_eq_none, ← ne_eq, ← Option.isSome_iff_ne_none] at hf'
        exact StructDef.fieldNamed?_isSome.mp hf'
      · unfold StructDef.InOrder
        rw [d.fieldNames_eq]
        exact hsub
      · intro f hf
        obtain ⟨e, he, rfl⟩ := List.mem_map.mp hf
        exact hfield e he

theorem foldlM_insert_eq {field : FieldDef → Except Fault (Option Value)}
    {fields : List (String × Value)} {defs : List (Int16 × FieldDef)}
    (done : List (String × Value)) (hd : (done.map Prod.fst ++ defs.map fun e => e.2.name).Nodup)
    (hfield : ∀ e ∈ defs, field e.2 = .ok (Table.find? e.2.name fields)) :
    defs.foldlM (fun done f => do
      match ← field f.2 with
      | some v => return Table.insert f.2.name v done
      | none => return done) done =
    Except.ok (done ++ defs.filterMap fun e =>
      (Table.find? e.2.name fields).map (e.2.name, ·)) := by
  induction defs generalizing done with
  | nil =>
    rw [List.filterMap_nil, List.append_nil]
    rfl
  | cons e defs ih =>
    rw [List.forall_mem_cons] at hfield
    rw [List.map_cons] at hd
    rw [List.foldlM_cons, hfield.1, List.filterMap_cons]
    cases hv : Table.find? e.2.name fields with
    | none =>
      exact ih done (hd.sublist (List.Sublist.append_left (List.sublist_cons_self _ _) _)) hfield.2
    | some v =>
      have hnew : e.2.name ∉ done.map Prod.fst := fun hm =>
        (List.nodup_append.mp hd).2.2 _ hm _ List.mem_cons_self rfl
      have hnext := ih (done ++ [(e.2.name, v)]) (by simpa using hd) hfield.2
      rw [List.append_assoc] at hnext
      rw [← Table.insert_of_not_mem v hnew] at hnext
      exact hnext

theorem find?_undeclared {d : StructDef} {given : List String} (h : given ⊆ d.fieldNames) :
    given.find? (fun f => (d.fieldNamed? f).isNone) = none := by
  refine List.find?_eq_none.mpr fun f hf => ?_
  rw [Option.isNone_eq_false_iff.mpr (StructDef.fieldNamed?_isSome.mpr (h hf))]
  exact Bool.false_ne_true

/-- If every field is found or known to be absent, the fields can be gathered. -/
theorem foldlM_insert_of_forall {field : FieldDef → Except Fault (Option Value)}
    {defs : List (Int16 × FieldDef)} (done : List (String × Value))
    (h : ∀ e ∈ defs, ∃ o, field e.2 = .ok o) :
    ∃ fields, defs.foldlM (fun done f => do
      match ← field f.2 with
      | some v => return Table.insert f.2.name v done
      | none => return done) done = Except.ok fields := by
  induction defs generalizing done with
  | nil => exact ⟨done, rfl⟩
  | cons e defs ih =>
    rw [List.forall_mem_cons] at h
    obtain ⟨o, ho⟩ := h.1
    rw [List.foldlM_cons, ho]
    cases o with
    | none => exact ih done h.2
    | some v => exact ih (Table.insert e.2.name v done) h.2

theorem assemble_of_forall {d : StructDef} {given : List String}
    {field : FieldDef → Except Fault (Option Value)} (hgiven : given ⊆ d.fieldNames)
    (hfield : ∀ f ∈ d.fieldDefs, ∃ o, field f = .ok o) :
    ∃ p, assemble d d.name given field = .ok p := by
  obtain ⟨fields, hfields⟩ := foldlM_insert_of_forall [] fun e he =>
    hfield e.2 (List.mem_map_of_mem (f := Prod.snd) he)
  refine ⟨.struct d.name fields, ?_⟩
  unfold assemble
  rw [if_neg (not_not.mpr rfl), find?_undeclared hgiven]
  exact congrArg (· >>= fun fields => pure (Value.struct d.name fields)) hfields

/-- A struct value whose fields stand in order and are found as they are is assembled as it is. -/
theorem assemble_eq {d : StructDef} {fields : List (String × Value)}
    {field : FieldDef → Except Fault (Option Value)} (hd : d.fieldNames.Nodup)
    (horder : d.InOrder (fields.map Prod.fst))
    (hfield : ∀ f ∈ d.fieldDefs, field f = .ok (Table.find? f.name fields)) :
    assemble d d.name (fields.map Prod.fst) field = .ok (.struct d.name fields) := by
  have hfold := foldlM_insert_eq [] (by exact d.fieldNames_eq ▸ hd)
    fun e he => hfield e.2 (List.mem_map_of_mem (f := Prod.snd) he)
  rw [horder.found hd, List.nil_append] at hfold
  unfold assemble
  rw [if_neg (not_not.mpr rfl), find?_undeclared horder.subset]
  exact congrArg (· >>= fun fields => pure (Value.struct d.name fields)) hfold

/-! ## Values -/

theorem prepare_struct {d : StructDef} (hr : resolve s ty = .ok (.struct d)) :
    prepare s ty v = prepareStruct s d v := by
  unfold prepare
  rw [hr]
  rfl

theorem prepare_list_ok {elem : Ty} (hr : resolve s ty = .ok (.list elem))
    (h : prepare s ty v = .ok p) : ∃ items ps, (v = .list items ∨ v = .set items) ∧
      prepareItems s elem items = .ok ps ∧ p = .list ps := by
  unfold prepare at h
  rw [hr] at h
  cases v with
  | list items =>
    obtain ⟨ps, hps, rfl⟩ := map_eq_ok h
    exact ⟨items, ps, .inl rfl, hps, rfl⟩
  | set items =>
    obtain ⟨ps, hps, rfl⟩ := map_eq_ok h
    exact ⟨items, ps, .inr rfl, hps, rfl⟩
  | _ => cases h

theorem prepare_set_ok {elem : Ty} (hr : resolve s ty = .ok (.set elem))
    (h : prepare s ty v = .ok p) : ∃ items ps, (v = .list items ∨ v = .set items) ∧
      prepareItems s elem items = .ok ps ∧ p = .set (Value.distinct ps) := by
  unfold prepare at h
  rw [hr] at h
  cases v with
  | list items =>
    obtain ⟨ps, hps, rfl⟩ := map_eq_ok h
    exact ⟨items, ps, .inl rfl, hps, rfl⟩
  | set items =>
    obtain ⟨ps, hps, rfl⟩ := map_eq_ok h
    exact ⟨items, ps, .inr rfl, hps, rfl⟩
  | _ => cases h

theorem prepare_map_ok {key value : Ty} (hr : resolve s ty = .ok (.map key value))
    (h : prepare s ty v = .ok p) : ∃ entries ps, v = .map entries ∧
      prepareEntries s key value entries = .ok ps ∧ p = .map ps := by
  unfold prepare at h
  rw [hr] at h
  cases v with
  | map entries =>
    obtain ⟨ps, hps, rfl⟩ := map_eq_ok h
    exact ⟨entries, ps, rfl, hps, rfl⟩
  | _ => cases h

theorem prepareStruct_ok {d : StructDef} (hd : d.fieldNames.Nodup)
    (h : prepareStruct s d v = .ok p) :
    ∃ given fields, v = .struct d.name given ∧ p = .struct d.name fields ∧
      given.map Prod.fst ⊆ d.fieldNames ∧ d.InOrder (fields.map Prod.fst) ∧
      ∀ f ∈ d.fieldDefs, prepareField s f given = .ok (Table.find? f.name fields) := by
  cases v with
  | struct name given =>
    unfold prepareStruct at h
    obtain ⟨rfl, hgiven, fields, rfl, horder, hfield⟩ := assemble_ok hd h
    exact ⟨given, fields, rfl, rfl, hgiven, horder, hfield⟩
  | _ => cases h

/-- If the parts of a value are prepared into conforming ones, so are the fields of a struct. -/
theorem fieldsConform_of_parts {d : StructDef} {given fields : List (String × Value)}
    (hparts : ∀ v ∈ (Value.struct d.name given).parts, ∀ {ty p}, prepare s ty v = .ok p →
      Conforms s StructDef.InOrder ty p)
    (horder : d.InOrder (fields.map Prod.fst))
    (hfield : ∀ f ∈ d.fieldDefs, prepareField s f given = .ok (Table.find? f.name fields)) :
    FieldsConform s StructDef.InOrder d fields := by
  refine ⟨horder, fun f hf w hw => ?_⟩
  rcases prepareField_ok (hfield f hf) with ⟨_, hnone⟩ | ⟨v, w', hv, hw', hprep⟩
  · rw [hw] at hnone
    cases hnone
  · rw [hw] at hw'
    cases hw'
    exact hparts v (Value.field_mem_parts hv) hprep

theorem prepare_conforms (hs : ∀ d ∈ s.structDefs, d.fieldNames.Nodup)
    (h : prepare s ty v = .ok p) : Conforms s StructDef.InOrder ty p := by
  induction v using Value.induct generalizing ty p with
  | h v ih =>
    have itemsConform {items ps : List Value} {elem : Ty} (hv : v = .list items ∨ v = .set items)
        (hps : prepareItems s elem items = .ok ps) :
        ∀ w ∈ ps, Conforms s StructDef.InOrder elem w := by
      intro w hw
      obtain ⟨v', hv', hprep⟩ := exists_of_mem_right (prepareItems_ok hps) hw
      refine ih v' ?_ hprep
      rcases hv with rfl | rfl
      · exact hv'
      · exact hv'
    obtain ⟨shape, hr, -⟩ := bind_eq_ok (by unfold prepare at h; exact h)
    cases shape with
    | prim q =>
      unfold prepare at h
      rw [hr] at h
      exact .prim hr (asPrimitive_holds (eq_some_of_orMismatch h))
    | enum d =>
      unfold prepare at h
      rw [hr] at h
      exact asEnum_conforms hr (eq_some_of_orMismatch h)
    | struct d =>
      rw [prepare_struct hr] at h
      obtain ⟨given, fields, rfl, rfl, -, horder, hfield⟩ :=
        prepareStruct_ok (hs d (mem_structDefs_of_resolve hr)) h
      have hf := fieldsConform_of_parts (fun v hv => ih v hv) horder hfield
      exact .struct hr hf.names hf.values
    | list elem =>
      obtain ⟨items, ps, hv, hps, rfl⟩ := prepare_list_ok hr h
      exact .list hr (itemsConform hv hps)
    | set elem =>
      obtain ⟨items, ps, hv, hps, rfl⟩ := prepare_set_ok hr h
      exact .set hr (fun w hw => itemsConform hv hps w (Value.mem_of_mem_distinct hw))
        (Value.apart_distinct ps)
    | map key value =>
      obtain ⟨entries, ps, rfl, hps, rfl⟩ := prepare_map_ok hr h
      refine .map hr (fun e he => ?_) (fun e he => ?_)
      · obtain ⟨e', he', hprep, -⟩ := exists_of_mem_right (prepareEntries_ok hps) he
        exact ih _ (Value.key_mem_parts he') hprep
      · obtain ⟨e', he', -, hprep⟩ := exists_of_mem_right (prepareEntries_ok hps) he
        exact ih _ (Value.value_mem_parts he') hprep

theorem prepareStruct_conforms {d : StructDef} (hs : ∀ d ∈ s.structDefs, d.fieldNames.Nodup)
    (hd : d.fieldNames.Nodup) (h : prepareStruct s d v = .ok p) :
    ∃ fields, p = .struct d.name fields ∧ FieldsConform s StructDef.InOrder d fields := by
  obtain ⟨given, fields, rfl, rfl, -, horder, hfield⟩ := prepareStruct_ok hd h
  exact ⟨fields, rfl, fieldsConform_of_parts (fun _ _ => prepare_conforms hs) horder hfield⟩

end ThriftRpc.Codec
