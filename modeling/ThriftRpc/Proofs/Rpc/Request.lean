import ThriftRpc.Proofs.Codec.Skip
import ThriftRpc.Proofs.Compile.Regular
import ThriftRpc.Proofs.Rpc.Message
import ThriftRpc.Rpc.Client
import ThriftRpc.Rpc.Processor

/-!
# Requests

A prepared request belongs to a function of the service, its struct holds the prepared arguments at
their positions (`Given`), and it is written as one message that the server reads or skips whole.
-/

namespace ThriftRpc.Rpc

open Wire (Reads ReadsIf Writer)

/-- What a handler of `f` is given for positional arguments: each as its type demands, and nothing
where the caller gave none. -/
structure Given (s : Schema) (f : FunctionDef) (arguments : List Value) (given : Arguments) :
    Prop where
  names : given.names = f.arguments.map (·.name)
  size : given.values.length = f.arguments.length
  present : ∀ (i : Nat) (d : FieldDef) (v : Value), f.arguments[i]? = some d →
    arguments[i]? = some v →
    ∃ w, Codec.prepare s d.type v = .ok w ∧ given.values[i]? = some (some w)
  absent : ∀ i : Nat, i < f.arguments.length → arguments[i]? = none → given.values[i]? = some none

namespace Client

variable {c : Client} {name : String} {arguments : List Value} {f : FunctionDef} {r : Request}

theorem function_ok (h : c.function name = .ok f) :
    f.name = name ∧ f ∈ c.schema.functions ∧ ∃ service,
      c.schema.service? c.service = some service ∧ service.function? name = some f := by
  unfold function at h
  split at h
  · next hf =>
    cases h
    obtain ⟨service, hservice, hf⟩ := Option.bind_eq_some_iff.mp hf
    have hname := List.find?_some hf
    have hmem := List.mem_of_find?_eq_some hservice
    exact ⟨of_decide_eq_true hname,
      List.mem_flatMap.mpr ⟨service, hmem, List.mem_of_find?_eq_some hf⟩, service, hservice, hf⟩
  · cases h

theorem prepare_ok (h : c.prepare name arguments = .ok r) :
    c.function name = .ok r.function ∧
      Codec.prepareStruct c.schema r.function.argsStruct
        (.struct r.function.argsStruct.name
          (Table.ofList ((r.function.arguments.map (·.name)).zip arguments))) = .ok r.arguments := by
  unfold prepare at h
  obtain ⟨f, hf, h⟩ := bind_eq_ok h
  split at h
  · cases h
  · obtain ⟨args, hargs, h⟩ := bind_eq_ok h
    cases h
    exact ⟨hf, mapError_eq_ok hargs⟩

/-- An argument is absent or stands prepared at its position. -/
theorem argument_cases (hargs : Compile.FieldsApart r.function.arguments)
    (h : c.prepare name arguments = .ok r) {i : Nat} {d : FieldDef}
    (hd : r.function.arguments[i]? = some d) :
    (arguments[i]? = none ∧ r.arguments.get? d.name = none) ∨
      ∃ v w, arguments[i]? = some v ∧ r.arguments.get? d.name = some w ∧
        Codec.prepare c.schema d.type v = .ok w := by
  obtain ⟨-, hprepare⟩ := prepare_ok h
  have hdefs := r.function.argsStruct_fieldDefs hargs
  have hnodup : r.function.argsStruct.fieldNames.Nodup := by
    unfold StructDef.fieldNames
    rw [hdefs]
    exact hargs.names
  obtain ⟨given, fields, hgiven, hr, -, -, hfield⟩ := Codec.prepareStruct_ok hnodup hprepare
  rw [Table.ofList_eq (hargs.names.sublist (map_fst_zip_sublist _ _))] at hgiven
  cases hgiven
  have hname : (r.function.arguments.map FieldDef.name)[i]? = some d.name := by simp [hd]
  rw [← Table.find?_zip hargs.names hname, hr]
  rcases Codec.prepareField_ok (hfield d (hdefs ▸ List.mem_of_getElem? hd)) with
    ⟨hv, hw⟩ | ⟨v, w, hv, hw, hp⟩
  · exact .inl ⟨hv, hw⟩
  · exact .inr ⟨v, w, hv, hw, hp⟩

/-- The handler is given the prepared arguments at their positions. -/
theorem given_ofStruct (hargs : Compile.FieldsApart r.function.arguments)
    (h : c.prepare name arguments = .ok r) :
    Given c.schema r.function arguments (.ofStruct r.function r.arguments) := by
  have hvalue : ∀ (i : Nat) (d : FieldDef), r.function.arguments[i]? = some d →
      (Arguments.ofStruct r.function r.arguments).values[i]? =
        some (r.arguments.get? d.name) := by
    intro i d hd
    simp [Arguments.ofStruct, hd]
  refine ⟨rfl, by simp [Arguments.ofStruct], fun i d v hd hv => ?_, fun i hi hv => ?_⟩
  · rw [hvalue i d hd]
    rcases argument_cases hargs h hd with ⟨hnone, -⟩ | ⟨v', w, hv', hw, hp⟩
    · rw [hv] at hnone
      cases hnone
    · rw [hv] at hv'
      cases hv'
      exact ⟨w, hp, congrArg some hw⟩
  · have hd := List.getElem?_eq_getElem hi
    rw [hvalue i _ hd]
    rcases argument_cases hargs h hd with ⟨-, hnone⟩ | ⟨v, w, hv', -, -⟩
    · exact congrArg some hnone
    · rw [hv] at hv'
      cases hv'

/-- The name of the function and every length in the arguments fit their headers. -/
structure Request.Sendable (r : Request) : Prop where
  name : (Text.Utf8.encode r.function.name).length ≤ Writer.maxSize
  longest : r.arguments.longest ≤ Writer.maxSize

section Send

variable (hs : c.schema.Regular) (hd : r.function.argsStruct.Regular c.schema)
  (h : c.prepare name arguments = .ok r)
include hs hd h

theorem arguments_conform :
    ∃ fields, r.arguments = .struct r.function.argsStruct.name fields ∧
      Codec.FieldsConform c.schema StructDef.InOrder r.function.argsStruct fields := by
  obtain ⟨-, hprepare⟩ := prepare_ok h
  exact Codec.prepareStruct_conforms (fun d hd => (hs.structs d hd).names) hd.names hprepare

variable (hr : r.Sendable)
include hr

/-- A server that handles the function reads the arguments, one that does not skips them, each if
they do not nest too deep for it. -/
theorem send_read_or_skipped :
    ∃ header payload, Sends (c.send r) (header ++ payload) ∧
      Reads readHeader header ⟨r.function.name, .call, 0⟩ ∧
      ReadsIf (r.arguments.depth ≤ Codec.depthLimit) 1 (.wire .depthLimit)
        (Codec.readStruct c.schema r.function.argsStruct) payload r.arguments ∧
      ReadsIf (r.arguments.levels ≤ Wire.Reader.skipLimit) 0 (.wire .depthLimit)
        (Wire.Reader.skip .struct : Codec.Reading Unit) payload () := by
  obtain ⟨fields, hargs, hfields⟩ := arguments_conform hs hd h
  have hlongest := hr.longest
  rw [hargs] at hlongest
  obtain ⟨payload, hwrites, hread⟩ := Codec.writePreparedStruct_carried hs hd hfields hlongest
  obtain ⟨payload', hwrites', hskip⟩ := Codec.writePreparedStruct_skipped hs hd hfields hlongest
  cases hwrites.unique hwrites'
  rw [← hargs] at hwrites hread hskip
  obtain ⟨header, hheader, hsends⟩ :=
    writeMessage_sends (h := ⟨r.function.name, .call, 0⟩) hr.name hwrites
  exact ⟨header, payload, hsends, readHeader_reads hheader, hread, hskip.adapt Codec.Fault.wire⟩

end Send

end Client

end ThriftRpc.Rpc
