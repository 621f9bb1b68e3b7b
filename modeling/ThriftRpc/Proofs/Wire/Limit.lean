import ThriftRpc.Proofs.Wire.Transfer

/-!
# Reading up to a limit

A reader with a limit takes what is within it and fails on what is beyond (`ReadsIf`). It leaves
the rest of what it fails on unread, and `Refuses` counts how much of it at least.
-/

namespace ThriftRpc.Wire

variable {ε ε' α β : Type}

section Refuses

variable {r : ExceptT ε (StateM (List UInt8)) α} {k : α → ExceptT ε (StateM (List UInt8)) β}
  {b c : List UInt8} {a : α} {x : β} {e : ε} {spare : Nat} {ok ok' : Prop}

/-- Off any input that starts with `bytes`, `r` fails with `e` and leaves at least `spare` of
them. -/
def Refuses (spare : Nat) (r : ExceptT ε (StateM (List UInt8)) α) (bytes : List UInt8) (e : ε) :
    Prop :=
  ∀ rest, ∃ left, spare ≤ left.length ∧ r (bytes ++ rest) = (.error e, left ++ rest)

namespace Refuses

theorem throw (h : spare ≤ b.length) :
    Refuses spare (throw e : ExceptT ε (StateM (List UInt8)) α) b e :=
  fun _ => ⟨b, h, rfl⟩

/-- What the rest would have read is left. -/
theorem bind (h : Refuses 0 r b e) (hc : spare ≤ c.length) : Refuses spare (r >>= k) (b ++ c) e := by
  intro rest
  obtain ⟨left, -, h⟩ := h (c ++ rest)
  refine ⟨left ++ c, ?_, ?_⟩
  · rw [List.length_append]
    omega
  · rw [List.append_assoc, run_bind, h, List.append_assoc]

theorem andThen (h : Refuses spare r b e) : Refuses spare (r >>= k) b e := by
  intro rest
  obtain ⟨left, hleft, h⟩ := h rest
  exact ⟨left, hleft, run_bind_error h⟩

theorem after (hr : Reads r b a) (hk : Refuses spare (k a) c e) :
    Refuses spare (r >>= k) (b ++ c) e := by
  intro rest
  obtain ⟨left, hleft, hk⟩ := hk rest
  refine ⟨left, hleft, ?_⟩
  rw [List.append_assoc, run_bind_ok (hr (c ++ rest)), hk]

theorem adapt (f : ε → ε') (h : Refuses spare r b e) :
    Refuses spare (ExceptT.adapt f r) b (f e) := by
  intro rest
  obtain ⟨left, hleft, h⟩ := h rest
  refine ⟨left, hleft, ?_⟩
  rw [run_adapt, h]
  rfl

theorem mono {n : Nat} (h : Refuses spare r b e) (hn : n ≤ spare) : Refuses n r b e := by
  intro rest
  obtain ⟨left, hleft, h⟩ := h rest
  exact ⟨left, Nat.le_trans hn hleft, h⟩

end Refuses

/-- `r` takes `bytes` as `a` if `ok` holds, and refuses them otherwise. -/
structure ReadsIf (ok : Prop) (spare : Nat) (e : ε) (r : ExceptT ε (StateM (List UInt8)) α)
    (bytes : List UInt8) (a : α) : Prop where
  reads : ok → Reads r bytes a
  refuses : ¬ ok → Refuses spare r bytes e

namespace ReadsIf

theorem bind (h : ReadsIf ok 0 e r b a) (hk : ReadsIf ok' spare e (k a) c x)
    (hc : spare ≤ c.length) : ReadsIf (ok ∧ ok') spare e (r >>= k) (b ++ c) x where
  reads := fun hok => (h.reads hok.1).bind (hk.reads hok.2)
  refuses := fun hnot => by
    by_cases hok : ok
    · exact .after (h.reads hok) (hk.refuses fun hok' => hnot ⟨hok, hok'⟩)
    · exact (h.refuses hok).bind hc

theorem after (hr : Reads r b a) (hk : ReadsIf ok spare e (k a) c x) :
    ReadsIf ok spare e (r >>= k) (b ++ c) x where
  reads := fun hok => hr.bind (hk.reads hok)
  refuses := fun hnot => .after hr (hk.refuses hnot)

theorem andThen (h : ReadsIf ok spare e r b a) (hk : Reads (k a) [] x) :
    ReadsIf ok spare e (r >>= k) b x where
  reads := fun hok => (h.reads hok).andThen hk
  refuses := fun hnot => (h.refuses hnot).andThen

theorem adapt (f : ε → ε') (h : ReadsIf ok spare e r b a) :
    ReadsIf ok spare (f e) (ExceptT.adapt f r) b a where
  reads := fun hok => (h.reads hok).adapt f
  refuses := fun hnot => (h.refuses hnot).adapt f

/-- What is refused is not read. -/
theorem reads_iff (h : ReadsIf ok spare e r b a) : Reads r b a ↔ ok := by
  refine ⟨fun hreads => Classical.byContradiction fun hnot => ?_, h.reads⟩
  obtain ⟨left, -, hfault⟩ := h.refuses hnot []
  cases (hreads []).symm.trans hfault

theorem congr (h : ReadsIf ok spare e r b a) (hiff : ok' ↔ ok) : ReadsIf ok' spare e r b a where
  reads := fun hok => h.reads (hiff.mp hok)
  refuses := fun hnot => h.refuses fun hok => hnot (hiff.mpr hok)

end ReadsIf

end Refuses

/-! ## Both directions -/

section CarriedIf

variable {w : ExceptT ε (StateM Output) Unit} {r : ExceptT ε' (StateM (List UInt8)) α} {a : α}
  {k : Unit → ExceptT ε (StateM Output) Unit} {l : α → ExceptT ε' (StateM (List UInt8)) β} {x : β}
  {ok ok' : Prop} {spare : Nat} {e : ε'}

/-- What `w` writes, `r` reads back as `a` if `ok` holds, and refuses otherwise. -/
def CarriedIf (ok : Prop) (spare : Nat) (e : ε') (w : ExceptT ε (StateM Output) Unit)
    (r : ExceptT ε' (StateM (List UInt8)) α) (a : α) : Prop :=
  ∃ bytes, Writes w bytes ∧ ReadsIf ok spare e r bytes a

theorem Carried.carriedIf (h : Carried w r a) (hok : ok) : CarriedIf ok spare e w r a := by
  obtain ⟨b, hw, hr⟩ := h
  exact ⟨b, hw, fun _ => hr, fun hnot => absurd hok hnot⟩

namespace CarriedIf

theorem carried (h : CarriedIf ok spare e w r a) (hok : ok) : Carried w r a := by
  obtain ⟨b, hw, hr⟩ := h
  exact ⟨b, hw, hr.reads hok⟩

theorem bind (h : CarriedIf ok 0 e w r a) (hk : CarriedIf ok' 0 e (k ()) (l a) x) :
    CarriedIf (ok ∧ ok') 0 e (w >>= k) (r >>= l) x := by
  obtain ⟨b, hw, hr⟩ := h
  obtain ⟨c, hk, hl⟩ := hk
  exact ⟨b ++ c, hw.bind hk, hr.bind hl (Nat.zero_le _)⟩

/-- What comes first is always read. -/
theorem after (h : Carried w r a) (hk : CarriedIf ok spare e (k ()) (l a) x) :
    CarriedIf ok spare e (w >>= k) (r >>= l) x := by
  obtain ⟨b, hw, hr⟩ := h
  obtain ⟨c, hk, hl⟩ := hk
  exact ⟨b ++ c, hw.bind hk, .after hr hl⟩

theorem andThen (h : CarriedIf ok spare e w r a) (hl : Reads (l a) [] x) :
    CarriedIf ok spare e w (r >>= l) x := by
  obtain ⟨b, hw, hr⟩ := h
  exact ⟨b, hw, hr.andThen hl⟩

theorem congr (h : CarriedIf ok spare e w r a) (hiff : ok' ↔ ok) : CarriedIf ok' spare e w r a := by
  obtain ⟨b, hw, hr⟩ := h
  exact ⟨b, hw, hr.congr hiff⟩

theorem mono {n : Nat} (h : CarriedIf ok spare e w r a) (hn : n ≤ spare) :
    CarriedIf ok n e w r a := by
  obtain ⟨b, hw, hr⟩ := h
  exact ⟨b, hw, hr.reads, fun hnot => (hr.refuses hnot).mono hn⟩

end CarriedIf

end CarriedIf

end ThriftRpc.Wire
