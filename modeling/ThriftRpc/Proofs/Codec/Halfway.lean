import ThriftRpc.Proofs.Codec.Prepare
import ThriftRpc.Proofs.Codec.Writable

/-!
# Writing that fails halfway

Preparing a value does not look up the element type of an empty container, and a field is found
under its name only, though another field of the struct may bear the same. So a prepared value need
not be writable, and if it has parts, its first bytes are out when the fault is met
(`fails_halfway_iff`). In a regular schema every prepared value is writable, lengths aside.
-/

namespace ThriftRpc.Codec

open Wire

variable {s : Schema} {ty : Ty} {v p : Value} {d : StructDef}

/-- The writer fails and its output is not what it was. -/
def FailsHalfway (w : Writing Unit) (out : Output) : Prop :=
  (w out).1.isOk = false ∧ (w out).2 ≠ out

theorem resolves_of_prepare (h : prepare s ty v = .ok p) : ∃ shape, resolve s ty = .ok shape := by
  obtain ⟨shape, hr, -⟩ := bind_eq_ok (by unfold prepare at h; exact h)
  exact ⟨shape, hr⟩

/-- Every field was asked for, and what is there was found under the name of one of them. -/
theorem foldlM_insert_found (field : FieldDef → Except Fault (Option Value))
    {defs : List (Int16 × FieldDef)} {fields : List (String × Value)}
    (h : defs.foldlM (fun done f => do
      match ← field f.2 with
      | some v => return Table.insert f.2.name v done
      | none => return done) [] = Except.ok fields) :
    (∀ e ∈ defs, ∃ o, field e.2 = .ok o) ∧
      ∀ n ∈ fields.map Prod.fst, ∃ e ∈ defs, e.2.name = n ∧ ∃ w, field e.2 = .ok (some w) := by
  refine foldlM_eq_ok (fun asked (done : List (String × Value)) =>
    (∀ e ∈ asked, ∃ o, field e.2 = .ok o) ∧
      ∀ n ∈ done.map Prod.fst, ∃ e ∈ asked, e.2.name = n ∧ ∃ w, field e.2 = .ok (some w))
    ⟨List.forall_mem_nil _, List.forall_mem_nil _⟩ ?_ h
  rintro before e after done next - ⟨hasked, hfound⟩ hstep
  obtain ⟨o, ho, hnext⟩ := bind_eq_ok hstep
  have hbefore : ∀ n ∈ done.map Prod.fst, ∃ e' ∈ before ++ [e], e'.2.name = n ∧
      ∃ w, field e'.2 = .ok (some w) := by
    intro n hn
    obtain ⟨e', he', hrest⟩ := hfound n hn
    exact ⟨e', List.mem_append_left _ he', hrest⟩
  refine ⟨?_, ?_⟩
  · intro e' he'
    rcases List.mem_append.mp he' with he' | he'
    · exact hasked e' he'
    · rw [List.mem_singleton.mp he']
      exact ⟨o, ho⟩
  · cases o with
    | none =>
      cases hnext
      exact hbefore
    | some w =>
      cases hnext
      rw [Table.keys_insert]
      split
      · exact hbefore
      · intro n hn
        rcases List.mem_append.mp hn with hn | hn
        · exact hbefore n hn
        · refine ⟨e, List.mem_append_right _ List.mem_cons_self, ?_, w, ho⟩
          exact (List.mem_singleton.mp hn).symm

/-- The type of every field that a prepared struct has resolves. -/
theorem prepareStruct_resolves (h : prepareStruct s d v = .ok p) :
    ∃ fields, p = .struct d.name fields ∧ ∀ f ∈ d.fieldDefs, ∀ w,
      Table.find? f.name fields = some w → ∃ shape, resolve s f.type = .ok shape := by
  cases v with
  | struct name given =>
    have hassembled : assemble d name (given.map Prod.fst) (prepareField s · given) = .ok p := h
    unfold assemble at hassembled
    split at hassembled
    · cases hassembled
    split at hassembled
    · cases hassembled
    obtain ⟨fields, hfields, hp⟩ := bind_eq_ok hassembled
    cases hp
    obtain ⟨hasked, hfound⟩ := foldlM_insert_found (prepareField s · given) hfields
    refine ⟨fields, rfl, fun f hf w hw => ?_⟩
    -- Another field of the same name may have put the value there; both were asked for it.
    obtain ⟨e, he, rfl⟩ := List.mem_map.mp hf
    obtain ⟨e', -, hname, w', hw'⟩ :=
      hfound _ (List.mem_map_of_mem (f := Prod.fst) (Table.mem_of_find? hw))
    obtain ⟨o, ho⟩ := hasked e he
    rcases prepareField_ok ho with ⟨hnone, -⟩ | ⟨g, _, -, -, hprep⟩
    · rcases prepareField_ok hw' with ⟨-, hnone'⟩ | ⟨_, _, hsome, -⟩
      · cases hnone'
      · rw [hname, hnone] at hsome
        cases hsome
    · exact resolves_of_prepare hprep
  | _ => cases h

theorem structWrite_writesIf (h : prepareStruct s d v = .ok p) :
    ∃ fields, p = .struct d.name fields ∧
      WritesIf (FieldsWritable s d fields) 1 (writeFields d fun f => writeField s f fields) := by
  obtain ⟨fields, rfl, hr⟩ := prepareStruct_resolves h
  refine ⟨fields, rfl, fields_writesIf fun f hf => field_writesIf (hr f hf) fun v hv => ?_⟩
  exact write_writesIf s f.type v

/-- A prepared value with parts is refused only behind its first byte, if they can be counted. -/
theorem prepared_writesIf (h : prepare s ty v = .ok p) (hparts : p.parts ≠ [])
    (hl : p.length ≤ Writer.maxSize) : WritesIf (Writable s ty p) 1 (write s ty p) := by
  obtain ⟨shape, hr⟩ := resolves_of_prepare h
  have elem_resolves {elem : Ty} {items ps : List Value} (hps : prepareItems s elem items = .ok ps)
      (hne : ps ≠ []) : ∃ shape, resolve s elem = .ok shape := by
    obtain ⟨w, hw⟩ := List.exists_mem_of_ne_nil ps hne
    obtain ⟨v, -, hprep⟩ := exists_of_mem_right (prepareItems_ok hps) hw
    exact resolves_of_prepare hprep
  cases shape with
  | prim q =>
    unfold prepare at h
    rw [hr] at h
    cases asPrimitive_holds (eq_some_of_orMismatch h) <;> exact absurd rfl hparts
  | enum d =>
    unfold prepare at h
    rw [hr] at h
    have hp : Conforms s StructDef.InOrder ty p := asEnum_conforms hr (eq_some_of_orMismatch h)
    clear h
    cases hp with
    | member | unknownMember => exact absurd rfl hparts
    | prim hr' | list hr' | set hr' | map hr' | struct hr' => cases hr.symm.trans hr'
  | struct d =>
    rw [prepare_struct hr] at h
    obtain ⟨fields, rfl, hwrite⟩ := structWrite_writesIf h
    exact struct_writesIf hr hwrite
  | list elem =>
    obtain ⟨items, ps, -, hps, rfl⟩ := prepare_list_ok hr h
    obtain ⟨shape, he⟩ := elem_resolves hps hparts
    exact Elements.writesIf (.inl ⟨hr, rfl⟩) he hl fun v _ => write_writesIf s elem v
  | set elem =>
    obtain ⟨items, ps, -, hps, rfl⟩ := prepare_set_ok hr h
    have hne : ps ≠ [] := by
      rintro rfl
      exact hparts rfl
    obtain ⟨shape, he⟩ := elem_resolves hps hne
    exact Elements.writesIf (.inr ⟨hr, rfl⟩) he hl fun v _ => write_writesIf s elem v
  | map key value =>
    obtain ⟨entries, ps, -, hps, rfl⟩ := prepare_map_ok hr h
    have hne : ps ≠ [] := by
      rintro rfl
      exact hparts rfl
    obtain ⟨e, he⟩ := List.exists_mem_of_ne_nil ps hne
    obtain ⟨_, -, hk, hv⟩ := exists_of_mem_right (prepareEntries_ok hps) he
    obtain ⟨keyShape, hk⟩ := resolves_of_prepare hk
    obtain ⟨valueShape, hv⟩ := resolves_of_prepare hv
    exact map_writesIf hr hk hv hl fun e _ => ⟨write_writesIf s key e.1, write_writesIf s value e.2⟩

/-! ## Failing halfway -/

section FailsHalfway

variable {w : Writing Unit} {out : Output} {ok : Prop}

theorem failsHalfway_iff_of_writesIf (h : WritesIf ok 1 w) (hout : out.room = none) :
    FailsHalfway w out ↔ ¬ ok := by
  by_cases hok : ok
  · obtain ⟨bytes, hw⟩ := h.writes hok
    refine iff_of_false ?_ (not_not.mpr hok)
    rintro ⟨hfail, -⟩
    rw [hw out hout] at hfail
    cases hfail
  · obtain ⟨bytes, hlen, hw⟩ := h.breaks hok
    obtain ⟨e, he⟩ := hw out hout
    refine iff_of_true ⟨?_, ?_⟩ hok
    · rw [he]
      rfl
    · rw [he]
      intro heq
      have hsent : out.sent ++ bytes = out.sent := congrArg Output.sent heq
      have hnil : bytes = [] := by simpa using hsent
      simp [hnil] at hlen

theorem not_failsHalfway_of_breaks (h : Breaks w []) (hout : out.room = none) :
    ¬ FailsHalfway w out := by
  rintro ⟨-, hsent⟩
  obtain ⟨e, he⟩ := h out hout
  rw [he] at hsent
  simp at hsent

theorem not_failsHalfway_of_writes {bytes : List UInt8} (h : Writes w bytes)
    (hout : out.room = none) : ¬ FailsHalfway w out := by
  rintro ⟨hfail, -⟩
  rw [h out hout] at hfail
  cases hfail

theorem encode_failsHalfway_iff (s : Schema) (ty : Ty) (v : Value) (hout : out.room = none) :
    FailsHalfway (encode s ty v) out ↔ ∃ p, prepare s ty v = .ok p ∧ p.parts ≠ [] ∧
      p.length ≤ Writer.maxSize ∧ ¬ Writable s ty p := by
  unfold encode
  cases hp : prepare s ty v with
  | error e =>
    refine iff_of_false (not_failsHalfway_of_breaks (Breaks.throw e) hout) ?_
    rintro ⟨_, hnone, -⟩
    cases hnone
  | ok p =>
    show FailsHalfway (write s ty p) out ↔ _
    constructor
    · intro h
      have hnot : ¬ Writable s ty p := by
        intro hok
        obtain ⟨bytes, hw⟩ := (write_writesIf s ty p).writes hok
        exact not_failsHalfway_of_writes hw hout h
      refine ⟨p, rfl, fun hparts => ?_, ?_, hnot⟩
      · exact not_failsHalfway_of_breaks (write_breaks hnot (.inl hparts)) hout h
      · by_contra hl
        exact not_failsHalfway_of_breaks (write_breaks hnot (.inr (by omega))) hout h
    · rintro ⟨_, heq, hparts, hl, hnot⟩
      cases heq
      exact (failsHalfway_iff_of_writesIf (prepared_writesIf hp hparts hl) hout).mpr hnot

theorem writeStruct_failsHalfway_iff (s : Schema) (d : StructDef) (v : Value)
    (hout : out.room = none) :
    FailsHalfway (writeStruct s d v) out ↔
      ∃ fields, prepareStruct s d v = .ok (.struct d.name fields) ∧
        ¬ FieldsWritable s d fields := by
  unfold writeStruct
  cases hp : prepareStruct s d v with
  | error e =>
    refine iff_of_false (not_failsHalfway_of_breaks (Breaks.throw e) hout) ?_
    rintro ⟨_, hnone, -⟩
    cases hnone
  | ok p =>
    obtain ⟨fields, rfl, hwrite⟩ := structWrite_writesIf hp
    refine (failsHalfway_iff_of_writesIf hwrite hout).trans ⟨fun h => ⟨fields, rfl, h⟩, ?_⟩
    rintro ⟨_, heq, hnot⟩
    cases heq
    exact hnot

/-- An error leaves bytes behind exactly if the value is prepared into one that has parts and
cannot be written. -/
theorem fails_halfway_iff (s : Schema) (hout : out.room = none) :
    (∀ ty v, FailsHalfway (encode s ty v) out ↔ ∃ p, prepare s ty v = .ok p ∧ p.parts ≠ [] ∧
      p.length ≤ Writer.maxSize ∧ ¬ Writable s ty p) ∧
    ∀ d v, FailsHalfway (writeStruct s d v) out ↔
      ∃ fields, prepareStruct s d v = .ok (.struct d.name fields) ∧
        ¬ FieldsWritable s d fields :=
  ⟨fun ty v => encode_failsHalfway_iff s ty v hout,
    fun d v => writeStruct_failsHalfway_iff s d v hout⟩

end FailsHalfway

/-- A struct whose second field is a list of a type that is not in the schema. -/
def danglingSchema : Schema where
  structs := [("S", .ofFields "S" .struct
    [{ index := 1, name := "a", type := .prim .i32 },
      { index := 2, name := "b", type := .list (.named "Nope") }])]

def danglingValue : Value := .struct "S" [("a", .i32 7), ("b", .list [])]

/-- The first field and the header of the second are out when the element type is looked up. -/
theorem encode_dangling :
    danglingValue.longest ≤ Writer.maxSize ∧
      (encode danglingSchema (.named "S") danglingValue {}).1.isOk = false ∧
      (encode danglingSchema (.named "S") danglingValue {}).2.sent =
        [8, 0, 1, 0, 0, 0, 7, 15, 0, 2] := by
  decide +kernel

theorem dangling_not_writable (fields : List (String × Value))
    (hb : Table.find? "b" fields = some (.list [])) :
    ¬ Writable danglingSchema (.named "S") (.struct "S" fields) := by
  intro h
  rw [writable_struct_iff rfl] at h
  obtain ⟨_, _, heq, hfields⟩ := h
  cases heq
  have hlist := hfields { index := 2, name := "b", type := .list (.named "Nope") }
    (List.mem_cons_of_mem _ List.mem_cons_self) _ hb
  obtain ⟨⟨shape, hshape⟩, -⟩ := (Elements.writable_iff (.inl ⟨rfl, rfl⟩)).mp hlist
  cases hshape

theorem fails_halfway_dangling :
    FailsHalfway (encode danglingSchema (.named "S") danglingValue) {} :=
  ((fails_halfway_iff danglingSchema rfl).1 (.named "S") danglingValue).mpr
    ⟨danglingValue, rfl, List.cons_ne_nil _ _, by decide, dangling_not_writable _ rfl⟩

/-- An error leaves nothing behind, if what was prepared has no length that is too great. -/
theorem not_failsHalfway_of_regular (hs : s.Regular) (hty : s.Resolves ty) {out : Output}
    (hout : out.room = none) (hl : ∀ p, prepare s ty v = .ok p → p.longest ≤ Writer.maxSize) :
    ¬ FailsHalfway (encode s ty v) out := by
  rw [encode_failsHalfway_iff s ty v hout]
  rintro ⟨p, hp, -, -, hnot⟩
  have hconforms := prepare_conforms (fun d hd => (hs.structs d hd).names) hp
  exact hnot (writable_of_conforms hs.complete hconforms hty (hl p hp))

end ThriftRpc.Codec
