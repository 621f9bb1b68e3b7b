import ThriftRpc.Proofs.Wire.Local

/-!
# Readers off the beginning of an input

`Streams r E`: off the beginning of an input the reader either runs short, with a fault in `E` and
nothing left, or does already what it does off all of it, and no fault in `E` is raised. That
composes step by step; a walk whose fuel is the length of the input streams too, since every step of
it takes a byte (`StreamsAt`). So off a part of what a reader accepts as a whole it runs short
(`Streams.cut`).
-/

namespace ThriftRpc.Wire

variable {ε ε' α β : Type}

/-- The reader finds the end of the input where there should be more, a fault in `E`. -/
def RunsShort (r : ExceptT ε (StateM (List UInt8)) α) (E : ε → Prop) (input : List UInt8) : Prop :=
  ∃ e, r input = (.error e, []) ∧ E e

/-- Off `input` the one reader runs short; or it raises no such fault, and the other does the same in
front of `rest`. -/
def Continues (r r' : ExceptT ε (StateM (List UInt8)) α) (E : ε → Prop) (input rest : List UInt8) :
    Prop :=
  RunsShort r E input ∨ (∀ e, (r input).1 = .error e → ¬ E e) ∧
    r' (input ++ rest) = ((r input).1, (r input).2 ++ rest)

/-- The reader runs short, or whatever follows the input makes no difference. -/
def Streams (r : ExceptT ε (StateM (List UInt8)) α) (E : ε → Prop) : Prop :=
  ∀ input rest, Continues r r E input rest

/-- What goes on the same goes on the same behind the same step. -/
theorem Continues.bind {r r' : ExceptT ε (StateM (List UInt8)) α}
    {k k' : α → ExceptT ε (StateM (List UInt8)) β} {E : ε → Prop} {input rest : List UInt8}
    (h : Continues r r' E input rest)
    (hk : ∀ a left, r input = (.ok a, left) → Continues (k a) (k' a) E left rest) :
    Continues (r >>= k) (r' >>= k') E input rest := by
  rcases h with ⟨e, hr, he⟩ | ⟨hne, hr'⟩
  · exact .inl ⟨e, run_bind_error hr, he⟩
  cases hr : r input with
  | mk answer left =>
    rw [hr] at hr' hne
    cases answer with
    | error e =>
      refine .inr ?_
      rw [run_bind_error hr', run_bind_error hr]
      exact ⟨fun e' he' => hne e' (congrArg Except.error (Except.error.inj he')), rfl⟩
    | ok a =>
      rcases hk a left hr with ⟨e, hk, he⟩ | hk
      · exact .inl ⟨e, (run_bind_ok hr).trans hk, he⟩
      · refine .inr ?_
        rw [run_bind_ok hr', run_bind_ok hr]
        exact hk

namespace Streams

variable {r : ExceptT ε (StateM (List UInt8)) α} {k : α → ExceptT ε (StateM (List UInt8)) β}
  {P : α → Prop} {E : ε → Prop}

theorem pure (a : α) : Streams (Pure.pure a : ExceptT ε (StateM (List UInt8)) α) E :=
  fun _ _ => .inr ⟨fun _ h => (nomatch h), rfl⟩

theorem throw {e : ε} (h : ¬ E e) : Streams (throw e : ExceptT ε (StateM (List UInt8)) α) E :=
  fun _ _ => .inr ⟨fun _ he => Except.error.inj he ▸ h, rfl⟩

theorem bind_gives (h : Streams r E) (hP : Gives r P) (hk : ∀ a, P a → Streams (k a) E) :
    Streams (r >>= k) E :=
  fun input rest => (h input rest).bind fun a left hr => hk a (hP hr) left rest

theorem bind (h : Streams r E) (hk : ∀ a, Streams (k a) E) : Streams (r >>= k) E :=
  fun input rest => (h input rest).bind fun a left _ => hk a left rest

theorem map (f : α → β) (h : Streams r E) : Streams (f <$> r) E := by
  rw [map_eq_pure_bind]
  exact h.bind fun a => pure (f a)

theorem discard (h : Streams r E) : Streams (discard r) E := h.map _

theorem adapt {E : ε' → Prop} (f : ε → ε') (h : Streams r fun e => E (f e)) :
    Streams (ExceptT.adapt f r) E := by
  intro input rest
  rcases h input rest with ⟨e, hr, he⟩ | ⟨hne, hr⟩
  · refine .inl ⟨f e, ?_, he⟩
    rw [run_adapt, hr]
    rfl
  · refine .inr ⟨fun e he => ?_, by rw [run_adapt, run_adapt, hr]⟩
    rw [run_adapt] at he
    generalize (r input).1 = answer at he hne
    cases answer with
    | ok a => cases he
    | error fault => exact Except.error.inj he ▸ hne fault rfl

/-- A fault in `E` is always that the reader runs short. -/
theorem short (h : Streams r E) {input left : List UInt8} {e : ε}
    (hr : r input = (.error e, left)) (he : E e) : left = [] := by
  rcases h input [] with ⟨e', hr', -⟩ | ⟨hne, -⟩
  · exact congrArg Prod.snd (hr.symm.trans hr')
  · exact absurd he (hne e (congrArg Prod.fst hr))

/-- Off a part of what it accepts as a whole the reader runs short. -/
theorem cut (h : Streams r E) {bytes part : List UInt8} {a : α} (hr : r bytes = (.ok a, []))
    (hpart : part <+: bytes) (hne : part ≠ bytes) : RunsShort r E part := by
  obtain ⟨rest, rfl⟩ := hpart
  refine (h part rest).resolve_right fun hsame => ?_
  have hleft : (r part).2 ++ rest = [] := congrArg Prod.snd (hsame.2.symm.trans hr)
  rw [(List.append_eq_nil_iff.mp hleft).2, List.append_nil] at hne
  exact hne rfl

/-- What is read in front of one rest is read in front of any, and off less than that the reader runs
short. -/
theorem self_contained (h : Streams r E) (hlocal : Local r) {bytes rest : List UInt8} {a : α}
    (hr : r (bytes ++ rest) = (.ok a, rest)) :
    Reads r bytes a ∧ ∀ part, part <+: bytes → part ≠ bytes → RunsShort r E part := by
  have hreads := hlocal.reads_front hr
  have hwhole := hreads []
  rw [List.append_nil] at hwhole
  exact ⟨hreads, fun _ hpart hne => h.cut hwhole hpart hne⟩

end Streams

/-- With this much fuel or more, and more than there are bytes, the reader streams. -/
def StreamsAt (r : Nat → ExceptT ε (StateM (List UInt8)) α) (E : ε → Prop) (fuel : Nat) : Prop :=
  ∀ input rest more, input.length < fuel → input.length + rest.length < more →
    Continues (r fuel) (r more) E input rest

namespace StreamsAt

variable {E : ε → Prop} {fuel : Nat}

theorem of_streams {r : ExceptT ε (StateM (List UInt8)) α} (h : Streams r E) :
    StreamsAt (fun _ => r) E fuel :=
  fun input rest _ _ _ => h input rest

theorem bind {r : ExceptT ε (StateM (List UInt8)) α}
    {k : α → Nat → ExceptT ε (StateM (List UInt8)) β} (h : Streams r E) (hlocal : Local r)
    (hk : ∀ a, StreamsAt (k a) E fuel) :
    StreamsAt (fun fuel => r >>= fun a => k a fuel) E fuel := by
  intro input rest more hfuel hmore
  refine (h input rest).bind fun a left hr => ?_
  have hle := hlocal.length_le hr
  exact hk a left rest more (by omega) (by omega)

theorem andThen {r : Nat → ExceptT ε (StateM (List UInt8)) α} (h : StreamsAt r E fuel)
    (f : α → β) : StreamsAt (fun fuel => r fuel >>= fun a => pure (f a)) E fuel :=
  fun input rest more hfuel hmore =>
    (h input rest more hfuel hmore).bind fun a left _ => Streams.pure (f a) left rest

/-- A step that takes at least a byte uses up one of the fuel. -/
theorem succ {r : Nat → ExceptT ε (StateM (List UInt8)) β}
    {head : ExceptT ε (StateM (List UInt8)) α} {k : α → Nat → ExceptT ε (StateM (List UInt8)) β}
    (hr : ∀ n, r (n + 1) = head >>= fun a => k a n) (hhead : Streams head E)
    (hlt : ∀ ⦃input a left⦄, head input = (.ok a, left) → left.length < input.length)
    (hk : ∀ a, StreamsAt (k a) E fuel) : StreamsAt r E (fuel + 1) := by
  intro input rest more hfuel hmore
  obtain ⟨n, rfl⟩ : ∃ n, more = n + 1 := ⟨more - 1, by omega⟩
  rw [hr, hr]
  refine (hhead input rest).bind fun a left hrun => ?_
  -- The step has taken a byte for the fuel it used, so the rest is still covered.
  have hshorter := hlt hrun
  exact hk a left rest n (by omega) (by omega)

theorem ofLength {r : Nat → ExceptT ε (StateM (List UInt8)) α} (h : ∀ fuel, StreamsAt r E fuel) :
    Streams (do let rest ← get; r (rest.length + 1)) E := by
  intro input rest
  have hwhole : input.length + rest.length < (input ++ rest).length + 1 := by
    rw [List.length_append]
    exact Nat.lt_succ_self _
  exact h _ input rest _ (Nat.lt_succ_self _) hwhole

end StreamsAt

/-! ## Primitives -/

/-- The fault says that the input has ended. -/
def Fault.Short (fault : Fault) : Prop := fault.isEnd = true

namespace Reader

theorem bytes_streams (n : Nat) (short : StreamFault) (h : (Fault.stream short).Short) :
    Streams (bytes n short) Fault.Short := by
  intro input rest
  cases hsplit : splitFirst? n input with
  | none =>
    refine .inl ⟨_, ?_, h⟩
    rw [run_bytes, hsplit, Option.elim_none]
  | some p =>
    obtain ⟨taken, left⟩ := p
    obtain ⟨rfl, rfl⟩ := eq_append_of_splitFirst? hsplit
    refine .inr ⟨?_, ?_⟩
    · rw [run_bytes, hsplit]
      rintro _ ⟨⟩
    · rw [run_bytes, run_bytes, hsplit, List.append_assoc, splitFirst?_append]
      rfl

theorem unsigned_streams (width : Nat) : Streams (unsigned width) Fault.Short :=
  (bytes_streams width .shortItem rfl).bind fun _ => .pure _

theorem uint8_streams : Streams uint8 Fault.Short := (unsigned_streams 1).bind fun _ => .pure _
theorem bool_streams : Streams bool Fault.Short := uint8_streams.bind fun _ => .pure _
theorem byte_streams : Streams byte Fault.Short := uint8_streams.bind fun _ => .pure _
theorem i16_streams : Streams i16 Fault.Short := (unsigned_streams 2).bind fun _ => .pure _
theorem i32_streams : Streams i32 Fault.Short := (unsigned_streams 4).bind fun _ => .pure _
theorem i64_streams : Streams i64 Fault.Short := (unsigned_streams 8).bind fun _ => .pure _
theorem double_streams : Streams double Fault.Short := (unsigned_streams 8).bind fun _ => .pure _

theorem size_streams : Streams size Fault.Short := by
  refine i32_streams.bind fun n => ?_
  split
  · exact .throw nofun
  · exact .pure n

theorem binary_streams : Streams binary Fault.Short :=
  size_streams.bind fun _ => bytes_streams _ .shortBytes rfl

theorem text_streams (data : List UInt8) : Streams (text data) Fault.Short := by
  unfold text
  split
  · exact .pure _
  · exact .throw nofun

theorem string_streams : Streams string Fault.Short :=
  binary_streams.bind fun data => text_streams data

theorem wireType_streams : Streams wireType Fault.Short := by
  refine uint8_streams.bind fun code => ?_
  split
  · exact .pure _
  · exact .throw nofun

theorem fieldHeader_streams : Streams fieldHeader Fault.Short := by
  refine wireType_streams.bind fun w => ?_
  split
  · exact .pure _
  · exact i16_streams.bind fun _ => .pure _

theorem listHeader_streams : Streams listHeader Fault.Short :=
  wireType_streams.bind fun _ => size_streams.bind fun _ => .pure _

theorem mapHeader_streams : Streams mapHeader Fault.Short :=
  wireType_streams.bind fun _ => wireType_streams.bind fun _ => size_streams.bind fun _ => .pure _

theorem skipFields_streams {skip : WireType → Reader Unit}
    (h : ∀ w, Streams (skip w) Fault.Short) (hlocal : ∀ w, Local (skip w)) (fuel : Nat) :
    StreamsAt (skipFields skip) Fault.Short fuel := by
  induction fuel with
  | zero => exact fun _ _ _ hfuel => absurd hfuel (Nat.not_lt_zero _)
  | succ fuel ih =>
    refine .succ (fun _ => rfl) fieldHeader_streams (fun _ _ _ => fieldHeader_length_lt)
      fun header => ?_
    by_cases hstop : header.wireType = .stop
    · simp only [if_pos hstop]
      exact .of_streams (.pure ())
    · simp only [if_neg hstop]
      exact .bind (h header.wireType) (hlocal header.wireType) fun _ => ih

theorem replicate_streams {read : Reader Unit} (h : Streams read Fault.Short) (n : Nat) :
    Streams (replicate n read) Fault.Short := by
  induction n with
  | zero => exact .pure ()
  | succ n ih => exact h.bind fun _ => ih

theorem skipWithin_streams (depth : Nat) (w : WireType) :
    Streams (skipWithin depth w) Fault.Short := by
  induction depth generalizing w with
  | zero => exact .throw nofun
  | succ depth ih =>
    cases w with
    | stop | void => exact .pure ()
    | bool => exact bool_streams.discard
    | byte => exact byte_streams.discard
    | i16 => exact i16_streams.discard
    | i32 => exact i32_streams.discard
    | i64 => exact i64_streams.discard
    | double => exact double_streams.discard
    | string => exact binary_streams.discard
    | struct =>
      exact StreamsAt.ofLength fun fuel => skipFields_streams ih (skipWithin_local depth) fuel
    | list | set => exact listHeader_streams.bind fun header => replicate_streams (ih _) _
    | map =>
      exact mapHeader_streams.bind fun header => replicate_streams ((ih _).bind fun _ => ih _) _

/-! ## Message headers -/

theorem messageName_streams : Streams messageName Fault.Short := by
  refine i32_streams.bind fun first => ?_
  split
  · dsimp only
    split
    · exact (Streams.throw nofun).bind fun _ => string_streams.bind fun _ => .pure _
    · exact string_streams.bind fun _ => .pure _
  · exact (bytes_streams _ .shortBytes rfl).bind fun data =>
      (text_streams data).bind fun _ => uint8_streams.bind fun _ => .pure _

theorem messageHeader_streams : Streams messageHeader Fault.Short := by
  refine messageName_streams.bind fun ⟨name, code⟩ => ?_
  dsimp only
  split
  · exact .throw nofun
  · exact i32_streams.bind fun _ => .pure _

theorem messageName_local : Local messageName := by
  refine i32_local.bind fun first => ?_
  split
  · dsimp only
    split
    · exact (Local.throw _).bind fun _ => string_local.bind fun _ => .pure _
    · exact string_local.bind fun _ => .pure _
  · refine (bytes_local _ _).bind fun data => ?_
    unfold text
    split
    · exact (Local.pure _).bind fun _ => uint8_local.bind fun _ => .pure _
    · exact (Local.throw _).bind fun _ => uint8_local.bind fun _ => .pure _

theorem messageHeader_local : Local messageHeader := by
  refine messageName_local.bind fun ⟨name, code⟩ => ?_
  dsimp only
  split
  · exact .throw _
  · exact i32_local.bind fun _ => .pure _

end Reader

end ThriftRpc.Wire
