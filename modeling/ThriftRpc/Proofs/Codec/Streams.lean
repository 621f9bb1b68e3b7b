import ThriftRpc.Proofs.Codec.Total
import ThriftRpc.Proofs.Wire.Streams

/-!
# Values off the beginning of an input

Reading a value, whatever its type and whatever the wire announces, runs short where the input ends
too early, and otherwise does not depend on what follows (`readWithin_streams`,
`readStruct_streams`): coerced, skipped and absent values included. So decoding and skipping look
only at the bytes of the value (`decode_self_contained`).
-/

namespace ThriftRpc.Codec

open Wire

variable {s : Schema}

/-- The fault says that the input has ended. -/
def Fault.Short : Fault → Prop
  | wire fault => fault.Short
  | _ => False

/-- A reader of the wire streams also as one of values. -/
theorem wire_streams {α : Type} {r : Reader α} (h : Streams r Wire.Fault.Short) :
    Streams (r : Reading α) Fault.Short :=
  .adapt _ h

theorem skip_streams (w : WireType) : Streams (Reader.skip w) Wire.Fault.Short :=
  Reader.skipWithin_streams _ w

theorem readAsText_streams (w : WireType) : Streams (readAsText w) Wire.Fault.Short := by
  have scalar {α : Type} {r : Reader α} (h : Streams r Wire.Fault.Short) (f : α → String) :
      Streams (do return some (f (← r)) : Reader (Option String)) Wire.Fault.Short :=
    h.bind fun _ => .pure _
  have other (w : WireType) : Streams (do Reader.skip w; return none : Reader (Option String))
      Wire.Fault.Short := (skip_streams w).bind fun _ => .pure _
  cases w with
  | bool => exact scalar Reader.bool_streams Value.boolText
  | byte => exact scalar Reader.byte_streams fun n => toString n.toInt
  | i16 => exact scalar Reader.i16_streams fun n => toString n.toInt
  | i32 => exact scalar Reader.i32_streams fun n => toString n.toInt
  | i64 => exact scalar Reader.i64_streams fun n => toString n.toInt
  | double => exact scalar Reader.double_streams fun x => x.render Value.numberLayout
  | _ => exact other _

theorem readPrimitive_streams (p : Primitive) : Streams (readPrimitive p) Wire.Fault.Short := by
  cases p with
  | bool => exact .map _ Reader.bool_streams
  | byte => exact .map _ Reader.byte_streams
  | i16 => exact .map _ Reader.i16_streams
  | i32 => exact .map _ Reader.i32_streams
  | i64 => exact .map _ Reader.i64_streams
  | double => exact .map _ Reader.double_streams
  | string => exact .map _ Reader.string_streams
  | binary => exact .map _ Reader.binary_streams

theorem readEnum_streams (d : EnumDef) : Streams (readEnum d) Wire.Fault.Short := by
  refine Reader.i32_streams.bind fun code => ?_
  split
  · exact .pure _
  · exact .pure _

theorem lift_streams {α : Type} {e : Except Fault α} (h : ∀ fault, e = .error fault → ¬ fault.Short) :
    Streams (e : Reading α) Fault.Short := by
  cases e with
  | error fault => exact .throw (h fault rfl)
  | ok a => exact .pure a

theorem resolve_not_short {ty : Ty} {fault : Fault} (h : resolve s ty = .error fault) :
    ¬ fault.Short := by
  obtain ⟨name, rfl⟩ := resolve_eq_error h
  exact id

theorem resolve_streams {ty : Ty} : Streams (resolve s ty : Reading Shape) Fault.Short :=
  lift_streams fun _ h => resolve_not_short h

theorem wireType_streams {ty : Ty} : Streams (wireType s ty : Reading WireType) Fault.Short :=
  lift_streams fun _ h => resolve_not_short (wireType_eq_error h)

section Nested

variable {value : ValueReader} {d : StructDef}

def StreamsEach (value : ValueReader) : Prop := ∀ ty w, Streams (value ty w) Fault.Short

theorem readFields_streams (h : StreamsEach value) (hlocal : LocalEach value) (fuel : Nat)
    (done : Table String Value) :
    StreamsAt (fun fuel => readFields d value fuel done) Fault.Short fuel := by
  induction fuel generalizing done with
  | zero => exact fun _ _ _ hfuel => absurd hfuel (Nat.not_lt_zero _)
  | succ fuel ih =>
    refine .succ (fun _ => rfl) (wire_streams Reader.fieldHeader_streams)
      (fun _ _ _ hr => Reader.fieldHeader_length_lt (run_adapt_eq_ok hr)) fun header => ?_
    by_cases hstop : header.wireType = .stop
    · simp only [if_pos hstop]
      exact .of_streams (.pure done)
    · simp only [if_neg hstop]
      cases d.field? header.index with
      | none =>
        exact .bind (wire_streams (skip_streams _)) ((Reader.skipWithin_local _ _).adapt _)
          fun _ => ih done
      | some f =>
        refine .bind (h f.type header.wireType) (hlocal f.type header.wireType) fun v => ?_
        cases v with
        | none => exact ih done
        | some v => exact ih (done.insert f.name v)

theorem readFieldsOf_streams (h : StreamsEach value) (hlocal : LocalEach value) (d : StructDef) :
    Streams (readFieldsOf d value) Fault.Short := by
  let walk (fuel : Nat) : Reading Value :=
    readFields d value fuel [] >>= fun fields => pure (.struct d.name fields)
  exact StreamsAt.ofLength (r := walk) fun fuel =>
    .andThen (readFields_streams h hlocal fuel []) (Value.struct d.name)

theorem readPresent_streams {α : Type} {read : Reading (Option α)}
    (h : Streams read Fault.Short) (n : Nat) : Streams (readPresent n read) Fault.Short := by
  induction n with
  | zero => exact .pure _
  | succ n ih => exact h.bind fun _ => ih.bind fun _ => .pure _

/-- To descend streams, and so does what it gives. -/
structure StreamsBelow (descend : Reading ValueReader) : Prop where
  takes : Streams descend Fault.Short
  gives : Gives descend fun value => StreamsEach value ∧ LocalEach value

variable {descend : Reading ValueReader}

theorem readItems_streams (h : StreamsBelow descend) (elem : Ty) :
    Streams (readItems s descend elem) Fault.Short := by
  refine (wire_streams Reader.listHeader_streams).bind fun header => ?_
  refine h.takes.bind_gives h.gives fun value hvalue => ?_
  refine wireType_streams.bind fun w => ?_
  split
  · exact (readPresent_streams (hvalue.1 elem header.element) _).bind fun _ => .pure _
  · exact (wire_streams (Reader.replicate_streams (skip_streams _) _)).bind fun _ => .pure _

theorem readEntries_streams (h : StreamsBelow descend) (key value : Ty) :
    Streams (readEntries s descend key value) Fault.Short := by
  refine h.takes.bind_gives h.gives fun read hread => ?_
  refine (wire_streams Reader.mapHeader_streams).bind fun header => ?_
  refine wireType_streams.bind fun keyWire => wireType_streams.bind fun valueWire => ?_
  split
  · refine (readPresent_streams ?_ _).bind fun _ => .pure _
    exact (hread.1 key header.key).bind fun _ =>
      (hread.1 value header.value).bind fun _ => .pure _
  · refine (wire_streams (Reader.replicate_streams ?_ _)).bind fun _ => .pure _
    exact (skip_streams _).bind fun _ => skip_streams _

theorem readShape_streams (h : StreamsBelow descend) (shape : Shape) :
    Streams (readShape s descend shape) Fault.Short := by
  cases shape with
  | prim p => exact (wire_streams (readPrimitive_streams p)).map _
  | enum d => exact (wire_streams (readEnum_streams d)).map _
  | struct d =>
    exact h.takes.bind_gives h.gives fun value hvalue =>
      (readFieldsOf_streams hvalue.1 hvalue.2 d).bind fun _ => .pure _
  | list elem => exact (readItems_streams h elem).bind fun _ => .pure _
  | set elem => exact (readItems_streams h elem).bind fun _ => .pure _
  | map key value => exact (readEntries_streams h key value).bind fun _ => .pure _

theorem readCoerced_streams (h : StreamsBelow descend) : StreamsEach (readCoerced s descend) := by
  intro ty observed
  unfold readCoerced
  split
  · exact .pure none
  refine resolve_streams.bind fun shape => ?_
  split
  · exact readShape_streams h shape
  split
  · exact (wire_streams (readAsText_streams observed)).bind fun _ => .pure _
  split
  · exact (wire_streams Reader.binary_streams).bind fun _ => .pure _
  · exact (wire_streams (skip_streams observed)).bind fun _ => .pure _

theorem readWithin_streams (s : Schema) (depth : Nat) : StreamsEach (readWithin s depth) := by
  induction depth with
  | zero => exact readCoerced_streams ⟨.throw nofun, .throw _⟩
  | succ depth ih =>
    exact readCoerced_streams ⟨.pure _, .pure ⟨ih, readWithin_local s depth⟩⟩

end Nested

theorem readStruct_streams (s : Schema) (d : StructDef) :
    Streams (readStruct s d) Fault.Short :=
  readFieldsOf_streams (readWithin_streams s _) (readWithin_local s _) d

/-! ## Nothing but the bytes of the value -/

/-- An input that is too short ends inside an item of fixed width or before the announced bytes. -/
theorem ended_of_short {fault : Wire.Fault} (hinbound : fault.Inbound) (hshort : fault.Short) :
    ∃ cause, (cause = .shortItem ∨ cause = .shortBytes) ∧ fault = .stream cause := by
  cases fault with
  | stream cause =>
    cases cause with
    | shortItem => exact ⟨_, .inl rfl, rfl⟩
    | shortBytes => exact ⟨_, .inr rfl, rfl⟩
    | full | peerGone => exact hinbound.elim
  | closed => exact hinbound.elim
  | malformed | depthLimit => cases hshort

/-- Decoding, and skipping, looks only at the bytes of the value: what it does in front of one rest it
does in front of any other, and off any less than the bytes of the value it finds that the input has
ended. -/
theorem decode_self_contained (s : Schema) (ty : Ty) (w : WireType) (bytes rest : List UInt8) :
    (∀ o, decode s ty w (bytes ++ rest) = (.ok o, rest) →
      (∀ rest', decode s ty w (bytes ++ rest') = (.ok o, rest')) ∧
      ∀ part, part <+: bytes → part ≠ bytes → ∃ cause, (cause = .shortItem ∨ cause = .shortBytes) ∧
        decode s ty w part = (.error (.wire (.stream cause)), [])) ∧
    (Reader.skip w (bytes ++ rest) = (.ok (), rest) →
      (∀ rest', Reader.skip w (bytes ++ rest') = (.ok (), rest')) ∧
      ∀ part, part <+: bytes → part ≠ bytes → ∃ cause, (cause = .shortItem ∨ cause = .shortBytes) ∧
        Reader.skip w part = (.error (.stream cause), [])) := by
  constructor
  · intro o h
    obtain ⟨hreads, hshort⟩ :=
      (readWithin_streams s depthLimit ty w).self_contained (readWithin_local s depthLimit ty w) h
    refine ⟨hreads, fun part hpart hne => ?_⟩
    obtain ⟨fault, hrun, hfault⟩ := hshort part hpart hne
    -- A type that is unknown is no end of the input, so the fault is one of the wire.
    cases fault with
    | wire fault =>
      have hinbound : fault.Inbound :=
        (readWithin_raises s depthLimit ty w hrun).resolve_right fun h => nomatch h.1
      obtain ⟨cause, hcause, rfl⟩ := ended_of_short hinbound hfault
      exact ⟨cause, hcause, hrun⟩
    | _ => cases hfault
  · intro h
    obtain ⟨hreads, hshort⟩ := (skip_streams w).self_contained (Reader.skipWithin_local _ w) h
    refine ⟨hreads, fun part hpart hne => ?_⟩
    obtain ⟨fault, hrun, hfault⟩ := hshort part hpart hne
    obtain ⟨cause, hcause, rfl⟩ := ended_of_short (Reader.skipWithin_raises _ w hrun) hfault
    exact ⟨cause, hcause, hrun⟩

/-- A set of points that is coerced, in front of another byte. -/
theorem decode_self_contained_points :
    ∃ o, decode pointSchema (.named "Points") .set (pointBytes ++ [7]) = (.ok (some o), [7]) ∧
      (∀ rest, decode pointSchema (.named "Points") .set (pointBytes ++ rest) =
        (.ok (some o), rest)) ∧
      (∃ cause, decode pointSchema (.named "Points") .set (pointBytes.take 20) =
        (.error (.wire (.stream cause)), [])) ∧
      Reader.skip .set (pointBytes ++ [7]) = (.ok (), [7]) ∧
      (∀ rest, Reader.skip .set (pointBytes ++ rest) = (.ok (), rest)) ∧
      ∃ cause, Reader.skip .set (pointBytes.take 20) = (.error (.stream cause), []) := by
  have hdecode : decode pointSchema (.named "Points") .set (pointBytes ++ [7]) =
      (.ok (some (.set [.struct "Point" [("colour", .enum "Colour" "green"),
        ("at", .list [.i32 7])]])), [7]) := rfl
  have hok : (Reader.skip .set (pointBytes ++ [7])).1.isOk = true := by decide +kernel
  have hleft : (Reader.skip .set (pointBytes ++ [7])).2 = [7] := by decide +kernel
  obtain ⟨_, hunit⟩ := exists_eq_ok hok
  have hskip : Reader.skip .set (pointBytes ++ [7]) = (.ok (), [7]) := Prod.ext hunit hleft
  have hne : pointBytes.take 20 ≠ pointBytes := by decide
  obtain ⟨hvalue, hskipped⟩ :=
    decode_self_contained pointSchema (.named "Points") .set pointBytes [7]
  obtain ⟨hreads, hshort⟩ := hvalue _ hdecode
  obtain ⟨hskips, hcut⟩ := hskipped hskip
  obtain ⟨cause, -, hpart⟩ := hshort _ (List.take_prefix 20 _) hne
  obtain ⟨cause', -, hpart'⟩ := hcut _ (List.take_prefix 20 _) hne
  exact ⟨_, hdecode, hreads, ⟨cause, hpart⟩, hskip, hskips, cause', hpart'⟩

end ThriftRpc.Codec
