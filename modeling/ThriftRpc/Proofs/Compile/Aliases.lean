import ThriftRpc.Codec.Write
import ThriftRpc.Proofs.Codec.Prepare
import ThriftRpc.Proofs.Codec.ReadBack
import ThriftRpc.Proofs.Compile.Regular

/-!
# Aliases are transparent

In a compiled schema no alias bears the name of a definition, and the targets of aliases hold no
alias (`Schema.Substituted`). So a type means the same when each alias in it is replaced by its
target, as the compiler does it (`resolveType_eq_expandAliases`): it resolves to the same shape up
to the types inside it, and preparing, writing and reading follow it level by level. Only the text
of the type in a mismatch tells the two apart (`Fault.untyped`).
-/

namespace ThriftRpc

/-- The type with every alias in it replaced by its target. -/
def Schema.expandAliases (s : Schema) : Ty → Ty
  | .prim p => .prim p
  | .named name => (s.typedefs.find? name).getD (.named name)
  | .list elem => .list (s.expandAliases elem)
  | .set elem => .set (s.expandAliases elem)
  | .map key value => .map (s.expandAliases key) (s.expandAliases value)

/-- The shape with every alias in the types inside it replaced. -/
def Schema.expandShape (s : Schema) : Shape → Shape
  | .list elem => .list (s.expandAliases elem)
  | .set elem => .set (s.expandAliases elem)
  | .map key value => .map (s.expandAliases key) (s.expandAliases value)
  | shape => shape

/-- Definitions and aliases bear different names, and targets of aliases hold definitions only. -/
structure Schema.Substituted (s : Schema) : Prop where
  apart : ∀ name, (s.lookup name).isSome = true → s.typedefs.find? name = none
  targets : ∀ name target, s.typedefs.find? name = some target → s.Grounds target

variable {s : Schema} {ty : Ty}

namespace Compile

theorem Closed.substituted (h : Closed s) : s.Substituted where
  apart := fun _ hdefined => alias_of_isSome_lookup h.names hdefined
  targets := by
    intro name target htarget
    refine h.grounds ?_
    unfold Schema.types
    simp only [List.mem_append]
    exact .inl (.inr (List.mem_map_of_mem (f := Prod.snd) (Table.mem_of_find? htarget)))

end Compile

namespace Schema.Substituted

theorem expandAliases_of_grounds (h : s.Substituted) (hty : s.Grounds ty) :
    s.expandAliases ty = ty := by
  induction ty with
  | prim p => rfl
  | named name =>
    unfold Schema.expandAliases
    rw [h.apart name (hty name List.mem_cons_self)]
    rfl
  | list elem ih => exact congrArg Ty.list (ih hty)
  | set elem ih => exact congrArg Ty.set (ih hty)
  | map key value ihk ihv =>
    exact congrArg₂ Ty.map (ihk fun n hn => hty n (List.mem_append_left _ hn))
      (ihv fun n hn => hty n (List.mem_append_right _ hn))

/-- No alias is left. -/
theorem names_expandAliases (h : s.Substituted) (ty : Ty) :
    ∀ name ∈ (s.expandAliases ty).names, s.typedefs.find? name = none := by
  induction ty with
  | prim p => exact fun _ hn => nomatch hn
  | named name =>
    intro n hn
    unfold Schema.expandAliases at hn
    cases htarget : s.typedefs.find? name with
    | none =>
      rw [htarget] at hn
      rwa [List.mem_singleton.mp hn]
    | some target =>
      rw [htarget] at hn
      exact h.apart n (h.targets name target htarget n hn)
  | list elem ih => exact ih
  | set elem ih => exact ih
  | map key value ihk ihv =>
    intro n hn
    exact (List.mem_append.mp hn).elim (ihk n) (ihv n)

end Schema.Substituted

/-- A type of known names is recorded with its aliases replaced. -/
theorem Compile.resolveType_eq_expandAliases (h : ∀ name ∈ ty.names, s.isDefined name = true) :
    resolveType s ty = .ok (s.expandAliases ty) := by
  induction ty with
  | prim p => rfl
  | named name =>
    have hknown := h name List.mem_cons_self
    unfold Schema.isDefined at hknown
    unfold resolveType resolveName lookupName? Schema.expandAliases
    cases htarget : s.typedefs.find? name with
    | some target => simp
    | none =>
      have hdefined : (s.lookup name).isSome = true := by
        simpa [Table.contains, htarget] using hknown
      obtain ⟨c, hc⟩ := Option.isSome_iff_exists.mp hdefined
      simp [hc]
  | list elem ih => unfold resolveType Schema.expandAliases; rw [ih h]; rfl
  | set elem ih => unfold resolveType Schema.expandAliases; rw [ih h]; rfl
  | map key value ihk ihv =>
    unfold resolveType Schema.expandAliases
    rw [ihk fun n hn => h n (List.mem_append_left _ hn),
      ihv fun n hn => h n (List.mem_append_right _ hn)]
    rfl

namespace Codec

open Wire (Writer)

/-! ## Shapes -/

theorem wireType_expandShape (s : Schema) (shape : Shape) :
    (s.expandShape shape).wireType = shape.wireType := by
  cases shape <;> rfl

theorem ofText_expandShape (s : Schema) (shape : Shape) :
    ofText (s.expandShape shape) = ofText shape := by
  cases shape <;> rfl

theorem expandShape_of_grounds {shape : Shape} (h : s.Substituted) (hty : s.Grounds ty)
    (hr : resolveWithin s 0 ty = .ok shape) : s.expandShape shape = shape := by
  have hsame := h.expandAliases_of_grounds hty
  cases ty with
  | prim p => cases hr; rfl
  | named name =>
    obtain ⟨c, hc⟩ := Option.isSome_iff_exists.mp (hty name List.mem_cons_self)
    rw [resolveWithin_of_lookup hc] at hr
    cases hr
    cases c <;> rfl
  | list elem => cases hr; exact congrArg Shape.list (Ty.list.inj hsame)
  | set elem => cases hr; exact congrArg Shape.set (Ty.set.inj hsame)
  | map key value =>
    cases hr
    exact congrArg₂ Shape.map (Ty.map.inj hsame).1 (Ty.map.inj hsame).2

/-- One hop leads from an alias to what its target comes down to. -/
theorem resolve_expandAliases (h : s.Substituted) (ty : Ty) :
    resolve s (s.expandAliases ty) = s.expandShape <$> resolve s ty := by
  cases ty with
  | named name =>
    unfold Schema.expandAliases
    cases hc : s.lookup name with
    | some c =>
      rw [h.apart name (by rw [hc]; rfl)]
      unfold resolve
      rw [Option.getD_none, resolveWithin_of_lookup hc]
      cases c <;> rfl
    | none =>
      cases htarget : s.typedefs.find? name with
      | none =>
        rw [Option.getD_none]
        unfold resolve resolveWithin
        rw [hc, htarget]
        rfl
      | some target =>
        have hground := h.targets name target htarget
        obtain ⟨shape, hshape⟩ := Compile.resolveWithin_of_grounds hground
        have hfollow : resolve s (.named name) = .ok shape := by
          unfold resolve resolveWithin
          simp only [hc, aliasLimit, htarget, hshape]
        rw [hfollow]
        show resolve s target = .ok (s.expandShape shape)
        rw [expandShape_of_grounds h hground (hshape 0)]
        exact hshape aliasLimit
  | _ => rfl

theorem wireType_expandAliases (h : s.Substituted) (ty : Ty) :
    wireType s (s.expandAliases ty) = wireType s ty := by
  unfold wireType
  rw [resolve_expandAliases h]
  cases resolve s ty with
  | error fault => rfl
  | ok shape => exact congrArg Except.ok (wireType_expandShape s shape)

/-- Reads a type like the same type with its aliases replaced. -/
def Blind (s : Schema) (value : ValueReader) : Prop :=
  ∀ ty w, value (s.expandAliases ty) w = value ty w

section Reading

variable {n : Nat}

/-- What is done with the reader for a level below depends on that reader only. -/
theorem nested_congr {α : Type} {f g : ValueReader → Reading α}
    (hbelow : ∀ m, n = m + 1 → Blind s (readWithin s m)) (h : ∀ value, Blind s value → f value = g value) :
    nested s n >>= f = nested s n >>= g := by
  cases n with
  | zero => rfl
  | succ m => exact h _ (hbelow m rfl)

theorem readItems_expandAliases (h : s.Substituted)
    (hbelow : ∀ m, n = m + 1 → Blind s (readWithin s m)) (elem : Ty) :
    readItems s (nested s n) (s.expandAliases elem) = readItems s (nested s n) elem := by
  unfold readItems
  refine bind_congr fun header => nested_congr hbelow fun value hvalue => ?_
  rw [wireType_expandAliases h, hvalue]

theorem readEntries_expandAliases (h : s.Substituted)
    (hbelow : ∀ m, n = m + 1 → Blind s (readWithin s m)) (key value : Ty) :
    readEntries s (nested s n) (s.expandAliases key) (s.expandAliases value) =
      readEntries s (nested s n) key value := by
  unfold readEntries
  refine nested_congr hbelow fun read hread => bind_congr fun header => ?_
  rw [wireType_expandAliases h, wireType_expandAliases h, hread, hread]

theorem readShape_expandShape (h : s.Substituted)
    (hbelow : ∀ m, n = m + 1 → Blind s (readWithin s m)) (shape : Shape) :
    readShape s (nested s n) (s.expandShape shape) = readShape s (nested s n) shape := by
  cases shape with
  | list elem =>
    show (do return (← readItems s (nested s n) (s.expandAliases elem)).map _) = _
    rw [readItems_expandAliases h hbelow]
    rfl
  | set elem =>
    show (do return (← readItems s (nested s n) (s.expandAliases elem)).map _) = _
    rw [readItems_expandAliases h hbelow]
    rfl
  | map key value =>
    show (do return (← readEntries s (nested s n) (s.expandAliases key)
      (s.expandAliases value)).map _) = _
    rw [readEntries_expandAliases h hbelow]
    rfl
  | _ => rfl

theorem readWithin_expandAliases (h : s.Substituted) (n : Nat) : Blind s (readWithin s n) := by
  induction n using Nat.strongRecOn with
  | ind n ih =>
    intro ty w
    have hbelow : ∀ m, n = m + 1 → Blind s (readWithin s m) := fun m hm => ih m (by omega)
    rw [readWithin_eq]
    unfold readCoerced
    rw [resolve_expandAliases h]
    cases resolve s ty with
    | error fault => rfl
    | ok shape =>
      refine if_congr Iff.rfl rfl ?_
      show (if (s.expandShape shape).wireType = w then _ else _) = if shape.wireType = w then _ else _
      rw [wireType_expandShape, readShape_expandShape h hbelow, ofText_expandShape]

end Reading

/-! ## Preparing -/

/-- The fault without the text of the type that was expected. -/
def Fault.untyped : Fault → Fault
  | mismatch _ found => mismatch "" found
  | fault => fault

/-- The outcome without that text. -/
def untyped {α : Type} (m : Except Fault α) : Except Fault α := m.mapError Fault.untyped

theorem untyped_bind {α β : Type} (m : Except Fault α) (k : α → Except Fault β) :
    untyped (m >>= k) = untyped m >>= fun a => untyped (k a) := by
  cases m <;> rfl

theorem untyped_map_congr {α β : Type} (f : α → β) {m m' : Except Fault α}
    (h : untyped m = untyped m') : untyped (f <$> m) = untyped (f <$> m') := by
  have hmap (m : Except Fault α) : untyped (f <$> m) = f <$> untyped m := by cases m <;> rfl
  rw [hmap, hmap, h]

theorem untyped_orMismatch (ty ty' : Ty) (v : Value) (o : Option Value) :
    untyped (orMismatch ty v o) = untyped (orMismatch ty' v o) := by
  cases o <;> rfl

theorem prepareItems_expandAliases {elem : Ty} {items : List Value}
    (h : ∀ v ∈ items, untyped (prepare s (s.expandAliases elem) v) = untyped (prepare s elem v)) :
    untyped (prepareItems s (s.expandAliases elem) items) = untyped (prepareItems s elem items) := by
  induction items with
  | nil => rfl
  | cons v items ih =>
    rw [List.forall_mem_cons] at h
    unfold prepareItems
    simp only [untyped_bind, h.1, ih h.2]

theorem prepareEntries_expandAliases {key value : Ty} {entries : List (Value × Value)}
    (h : ∀ e ∈ entries,
      untyped (prepare s (s.expandAliases key) e.1) = untyped (prepare s key e.1) ∧
        untyped (prepare s (s.expandAliases value) e.2) = untyped (prepare s value e.2)) :
    untyped (prepareEntries s (s.expandAliases key) (s.expandAliases value) entries) =
      untyped (prepareEntries s key value entries) := by
  induction entries with
  | nil => rfl
  | cons e entries ih =>
    rw [List.forall_mem_cons] at h
    unfold prepareEntries
    simp only [untyped_bind, h.1.1, h.1.2, ih h.2]

theorem prepare_expandAliases (h : s.Substituted) (ty : Ty) (v : Value) :
    untyped (prepare s (s.expandAliases ty) v) = untyped (prepare s ty v) := by
  induction v using Value.induct generalizing ty with
  | h v ih =>
    unfold prepare
    rw [resolve_expandAliases h]
    cases resolve s ty with
    | error fault => rfl
    | ok shape =>
      have hitems (elem : Ty) {items : List Value} (hparts : ∀ w ∈ items, w ∈ v.parts) :
          untyped (prepareItems s (s.expandAliases elem) items) =
            untyped (prepareItems s elem items) :=
        prepareItems_expandAliases fun w hw => ih w (hparts w hw) elem
      cases shape with
      | prim p => exact untyped_orMismatch _ _ _ _
      | enum d => exact untyped_orMismatch _ _ _ _
      | struct d => rfl
      | list elem =>
        cases v with
        | list items => exact untyped_map_congr _ (hitems elem fun _ hw => hw)
        | set items => exact untyped_map_congr _ (hitems elem fun _ hw => hw)
        | _ => rfl
      | set elem =>
        cases v with
        | list items => exact untyped_map_congr _ (hitems elem fun _ hw => hw)
        | set items => exact untyped_map_congr _ (hitems elem fun _ hw => hw)
        | _ => rfl
      | map key value =>
        cases v with
        | map entries =>
          refine untyped_map_congr _ (prepareEntries_expandAliases fun e he => ?_)
          exact ⟨ih _ (Value.key_mem_parts he) key, ih _ (Value.value_mem_parts he) value⟩
        | _ => rfl

/-! ## Writing -/

/-- The action, its faults without the text of the type that was expected. -/
def untypedWriting {α : Type} (w : Writing α) : Writing α := ExceptT.adapt Fault.untyped w

theorem untypedWriting_bind {α β : Type} (w : Writing α) (k : α → Writing β) :
    untypedWriting (w >>= k) = untypedWriting w >>= fun a => untypedWriting (k a) := by
  funext out
  unfold untypedWriting
  rw [Wire.run_adapt, Wire.run_bind, Wire.run_bind, Wire.run_adapt]
  generalize w out = p
  obtain ⟨answer, left⟩ := p
  cases answer <;> rfl

theorem untypedWriting_lift {α : Type} (m : Except Fault α) :
    untypedWriting (liftM m : Writing α) = liftM (untyped m) := by
  cases m <;> rfl

theorem writePrimitive_untyped (ty ty' : Ty) (p : Primitive) (v : Value) :
    untypedWriting (writePrimitive ty p v) = untypedWriting (writePrimitive ty' p v) := by
  cases p <;> cases v <;> rfl

theorem writeEnum_untyped (ty ty' : Ty) (d : EnumDef) (v : Value) :
    untypedWriting (writeEnum ty d v) = untypedWriting (writeEnum ty' d v) := by
  cases v with
  | i32 n =>
    show untypedWriting (if n = Value.unknownCode then _ else _) =
      untypedWriting (if n = Value.unknownCode then _ else _)
    by_cases hn : n = Value.unknownCode
    · rw [if_pos hn, if_pos hn]
    · rw [if_neg hn, if_neg hn]
      rfl
  | _ => rfl

theorem writeItems_expandAliases {elem : Ty} {items : List Value}
    (h : ∀ v ∈ items,
      untypedWriting (write s (s.expandAliases elem) v) = untypedWriting (write s elem v)) :
    untypedWriting (writeItems s (s.expandAliases elem) items) =
      untypedWriting (writeItems s elem items) := by
  induction items with
  | nil => rfl
  | cons v items ih =>
    rw [List.forall_mem_cons] at h
    unfold writeItems
    simp only [untypedWriting_bind, h.1, ih h.2]

theorem writeEntries_expandAliases {key value : Ty} {entries : List (Value × Value)}
    (h : ∀ e ∈ entries,
      untypedWriting (write s (s.expandAliases key) e.1) = untypedWriting (write s key e.1) ∧
        untypedWriting (write s (s.expandAliases value) e.2) =
          untypedWriting (write s value e.2)) :
    untypedWriting (writeEntries s (s.expandAliases key) (s.expandAliases value) entries) =
      untypedWriting (writeEntries s key value entries) := by
  induction entries with
  | nil => rfl
  | cons e entries ih =>
    rw [List.forall_mem_cons] at h
    unfold writeEntries
    simp only [untypedWriting_bind, h.1.1, h.1.2, ih h.2]

theorem writeListed_expandAliases (h : s.Substituted) {elem : Ty} {items : List Value}
    (hitems : untypedWriting (writeItems s (s.expandAliases elem) items) =
      untypedWriting (writeItems s elem items)) :
    untypedWriting (do
        Writer.listHeader ⟨← wireType s (s.expandAliases elem), ← containerSize items.length⟩
        writeItems s (s.expandAliases elem) items) =
      untypedWriting (do
        Writer.listHeader ⟨← wireType s elem, ← containerSize items.length⟩
        writeItems s elem items) := by
  rw [wireType_expandAliases h]
  simp only [untypedWriting_bind, hitems]

theorem writeMapped_expandAliases (h : s.Substituted) {key value : Ty}
    {entries : List (Value × Value)}
    (hentries : untypedWriting (writeEntries s (s.expandAliases key) (s.expandAliases value) entries) =
      untypedWriting (writeEntries s key value entries)) :
    untypedWriting (do
        Writer.mapHeader ⟨← wireType s (s.expandAliases key), ← wireType s (s.expandAliases value),
          ← containerSize entries.length⟩
        writeEntries s (s.expandAliases key) (s.expandAliases value) entries) =
      untypedWriting (do
        Writer.mapHeader ⟨← wireType s key, ← wireType s value, ← containerSize entries.length⟩
        writeEntries s key value entries) := by
  rw [wireType_expandAliases h, wireType_expandAliases h]
  simp only [untypedWriting_bind, hentries]

theorem write_expandAliases (h : s.Substituted) (ty : Ty) (v : Value) :
    untypedWriting (write s (s.expandAliases ty) v) = untypedWriting (write s ty v) := by
  induction v using Value.induct generalizing ty with
  | h v ih =>
    unfold write
    rw [resolve_expandAliases h]
    cases resolve s ty with
    | error fault => rfl
    | ok shape =>
      have hitems (elem : Ty) {items : List Value} (hparts : ∀ w ∈ items, w ∈ v.parts) :
          untypedWriting (writeItems s (s.expandAliases elem) items) =
            untypedWriting (writeItems s elem items) :=
        writeItems_expandAliases fun w hw => ih w (hparts w hw) elem
      cases shape with
      | prim p => exact writePrimitive_untyped _ _ _ _
      | enum d => exact writeEnum_untyped _ _ _ _
      | struct d => cases v <;> rfl
      | list elem =>
        cases v with
        | list items => exact writeListed_expandAliases h (hitems elem fun _ hw => hw)
        | _ => rfl
      | set elem =>
        cases v with
        | set items => exact writeListed_expandAliases h (hitems elem fun _ hw => hw)
        | _ => rfl
      | map key value =>
        cases v with
        | map entries =>
          refine writeMapped_expandAliases h (writeEntries_expandAliases fun e he => ?_)
          exact ⟨ih _ (Value.key_mem_parts he) key, ih _ (Value.value_mem_parts he) value⟩
        | _ => rfl

theorem encode_expandAliases (h : s.Substituted) (ty : Ty) (v : Value) :
    untypedWriting (encode s (s.expandAliases ty) v) = untypedWriting (encode s ty v) := by
  unfold encode
  simp only [untypedWriting_bind, untypedWriting_lift, prepare_expandAliases h,
    write_expandAliases h]

end Codec

namespace Compile

open Codec (Fault untyped prepare encode decode)

/-- In a compiled schema a type may be written with aliases or with their targets: values are
prepared and encoded alike, into the same value and the same bytes, and bytes are decoded alike.
Only the type that a mismatch says was expected is another text. -/
theorem compile_aliases_transparent {config : Config} {library : Library}
    {root : Option Files.Path} {nodes : List Idl.Node}
    (h : compile config library root nodes = .ok s) (ty : Ty) :
    (∀ name ∈ (s.expandAliases ty).names, s.typedefs.find? name = none) ∧
      Codec.wireType s (s.expandAliases ty) = Codec.wireType s ty ∧
      (∀ v, untyped (prepare s (s.expandAliases ty) v) = untyped (prepare s ty v)) ∧
      (∀ v out, untyped (encode s (s.expandAliases ty) v out).1 = untyped (encode s ty v out).1 ∧
        (encode s (s.expandAliases ty) v out).2 = (encode s ty v out).2) ∧
      ∀ w input, decode s (s.expandAliases ty) w input = decode s ty w input := by
  obtain ⟨-, -, -, hclosed⟩ := compile_ok h
  have hs : s.Substituted := hclosed.substituted
  refine ⟨hs.names_expandAliases ty, Codec.wireType_expandAliases hs ty,
    Codec.prepare_expandAliases hs ty, fun v out => ?_, fun w input => ?_⟩
  · have hencode := congrFun (Codec.encode_expandAliases hs ty v) out
    unfold Codec.untypedWriting at hencode
    rw [Wire.run_adapt, Wire.run_adapt] at hencode
    exact Prod.mk.inj hencode
  · exact congrFun (Codec.readWithin_expandAliases hs Codec.depthLimit ty w) input

/-- Two trees, of which one has the other for a child, under an alias inside a list. -/
theorem compile_aliases_transparent_tree :
    let forests : Ty := .list (.named "Forest")
    let leaf : Value := .struct "Tree" [("children", .list [])]
    let grove : Value := .list [.set [leaf, .struct "Tree" [("children", .list [leaf])]]]
    treeSchema.expandAliases forests = .list (.set (.named "Tree")) ∧
      (prepare treeSchema forests grove).isOk = true ∧
      untyped (prepare treeSchema (.list (.set (.named "Tree"))) grove) =
        untyped (prepare treeSchema forests grove) ∧
      (encode treeSchema (.list (.set (.named "Tree"))) grove {}).2 =
        (encode treeSchema forests grove {}).2 := by
  intro forests leaf grove
  obtain ⟨-, -, hprepare, hencode, -⟩ := compile_aliases_transparent compile_tree forests
  exact ⟨rfl, by decide +kernel, hprepare grove, (hencode grove {}).2⟩

end Compile

end ThriftRpc
