import ThriftRpc.Codec.Read
import ThriftRpc.Proofs.Wire.Local

/-!
# Values are read alike in front of anything

Reading a value, whatever its type and whatever the wire announces, looks at no more than the bytes
it takes (`readWithin_local`): coerced, skipped and absent values included. So a struct that is
accepted by itself is accepted in front of anything (`readStruct_local`).
-/

namespace ThriftRpc.Codec

open Wire

variable {s : Schema}

theorem readAsText_local (w : WireType) : Local (readAsText w) := by
  have scalar {α : Type} {r : Reader α} (h : Local r) (f : α → String) :
      Local (do return some (f (← r)) : Reader (Option String)) :=
    h.bind fun _ => .pure _
  have other (w : WireType) : Local (do Reader.skip w; return none : Reader (Option String)) :=
    (Reader.skipWithin_local _ w).bind fun _ => .pure _
  cases w with
  | bool => exact scalar Reader.bool_local Value.boolText
  | byte => exact scalar Reader.byte_local fun n => toString n.toInt
  | i16 => exact scalar Reader.i16_local fun n => toString n.toInt
  | i32 => exact scalar Reader.i32_local fun n => toString n.toInt
  | i64 => exact scalar Reader.i64_local fun n => toString n.toInt
  | double => exact scalar Reader.double_local fun x => x.render Value.numberLayout
  | _ => exact other _

theorem readPrimitive_local (p : Primitive) : Local (readPrimitive p) := by
  cases p with
  | bool => exact .map _ Reader.bool_local
  | byte => exact .map _ Reader.byte_local
  | i16 => exact .map _ Reader.i16_local
  | i32 => exact .map _ Reader.i32_local
  | i64 => exact .map _ Reader.i64_local
  | double => exact .map _ Reader.double_local
  | string => exact .map _ Reader.string_local
  | binary => exact .map _ Reader.binary_local

theorem readEnum_local (d : EnumDef) : Local (readEnum d) := by
  refine Reader.i32_local.bind fun code => ?_
  split
  · exact .pure _
  · exact .pure _

theorem lift_local {α : Type} (e : Except Fault α) : Local (e : Reading α) := by
  cases e with
  | error fault => exact .throw fault
  | ok a => exact .pure a

/-! ## Structs and containers -/

section Nested

variable {value : ValueReader} {d : StructDef}

def LocalEach (value : ValueReader) : Prop := ∀ ty w, Local (value ty w)

theorem readFields_local (h : LocalEach value) (fuel : Nat) (done : Table String Value) :
    LocalAt (fun fuel => readFields d value fuel done) fuel := by
  induction fuel generalizing done with
  | zero =>
    intro input a left hrun
    cases hrun
  | succ fuel ih =>
    refine .succ (fun _ => rfl) (Reader.fieldHeader_local.adapt _) (fun _ _ h => nomatch h)
      fun header => ?_
    by_cases hstop : header.wireType = .stop
    · simp only [if_pos hstop]
      exact .of_local (.pure done)
    · simp only [if_neg hstop]
      cases d.field? header.index with
      | none => exact .bind ((Reader.skipWithin_local _ _).adapt _) fun _ => ih done
      | some f =>
        refine .bind (h f.type header.wireType) fun v => ?_
        cases v with
        | none => exact ih done
        | some v => exact ih (done.insert f.name v)

theorem readFieldsOf_local (h : LocalEach value) (d : StructDef) : Local (readFieldsOf d value) := by
  let walk (fuel : Nat) : Reading Value :=
    readFields d value fuel [] >>= fun fields => pure (.struct d.name fields)
  exact LocalAt.ofLength (r := walk) fun fuel =>
    .andThen (readFields_local h fuel []) (Value.struct d.name)

theorem readPresent_local {α : Type} {read : Reading (Option α)} (h : Local read) (n : Nat) :
    Local (readPresent n read) := by
  induction n with
  | zero => exact .pure _
  | succ n ih => exact h.bind fun _ => ih.bind fun _ => .pure _

/-- To descend takes nothing off the input, and what it gives is local. -/
structure LocalDescent (descend : Reading ValueReader) : Prop where
  takes : Local descend
  gives : Gives descend LocalEach

variable {descend : Reading ValueReader}

theorem readItems_local (h : LocalDescent descend) (elem : Ty) : Local (readItems s descend elem) := by
  refine (Reader.listHeader_local.adapt _).bind fun header => ?_
  refine h.takes.bind_gives h.gives fun value hvalue => ?_
  refine (lift_local _).bind fun w => ?_
  split
  · exact (readPresent_local (hvalue elem header.element) _).bind fun _ => .pure _
  · exact ((Reader.replicate_local (Reader.skipWithin_local _ _) _).adapt _).bind fun _ => .pure _

theorem readEntries_local (h : LocalDescent descend) (key value : Ty) :
    Local (readEntries s descend key value) := by
  refine h.takes.bind_gives h.gives fun read hread => ?_
  refine (Reader.mapHeader_local.adapt _).bind fun header => ?_
  refine (lift_local _).bind fun keyWire => (lift_local _).bind fun valueWire => ?_
  split
  · refine (readPresent_local ?_ _).bind fun _ => .pure _
    exact (hread key header.key).bind fun _ => (hread value header.value).bind fun _ => .pure _
  · refine ((Reader.replicate_local ?_ _).adapt _).bind fun _ => .pure _
    exact (Reader.skipWithin_local _ _).bind fun _ => Reader.skipWithin_local _ _

theorem readShape_local (h : LocalDescent descend) (shape : Shape) :
    Local (readShape s descend shape) := by
  cases shape with
  | prim p => exact ((readPrimitive_local p).adapt _).map _
  | enum d => exact ((readEnum_local d).adapt _).map _
  | struct d =>
    exact h.takes.bind_gives h.gives fun value hvalue =>
      (readFieldsOf_local hvalue d).bind fun _ => .pure _
  | list elem => exact (readItems_local h elem).bind fun _ => .pure _
  | set elem => exact (readItems_local h elem).bind fun _ => .pure _
  | map key value => exact (readEntries_local h key value).bind fun _ => .pure _

theorem readCoerced_local (h : LocalDescent descend) : LocalEach (readCoerced s descend) := by
  intro ty observed
  unfold readCoerced
  split
  · exact .pure none
  refine (lift_local _).bind fun shape => ?_
  split
  · exact readShape_local h shape
  split
  · exact ((readAsText_local observed).adapt _).bind fun _ => .pure _
  split
  · exact (Reader.binary_local.adapt _).bind fun _ => .pure _
  · exact ((Reader.skipWithin_local _ observed).adapt _).bind fun _ => .pure _

theorem readWithin_local (s : Schema) (depth : Nat) : LocalEach (readWithin s depth) := by
  induction depth with
  | zero => exact readCoerced_local ⟨.throw _, .throw _⟩
  | succ depth ih => exact readCoerced_local ⟨.pure _, .pure ih⟩

end Nested

theorem readStruct_local (s : Schema) (d : StructDef) : Local (readStruct s d) :=
  readFieldsOf_local (readWithin_local s _) d

end ThriftRpc.Codec
