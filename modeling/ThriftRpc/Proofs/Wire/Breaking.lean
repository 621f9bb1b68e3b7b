import ThriftRpc.Proofs.Wire.Transfer

/-!
# Writers that break off

`Breaks w bytes`: on an output without a bound, `w` appends `bytes` and then fails. `WritesIf` says
on what condition a writer gets to its end, and how much it leaves behind at least if it does not.
-/

namespace ThriftRpc.Wire

variable {ε ε' : Type}

section Breaks

variable {w : ExceptT ε (StateM Output) Unit} {k : Unit → ExceptT ε (StateM Output) Unit}
  {b c : List UInt8}

/-- On an output without a bound, `w` appends `bytes` and fails. -/
def Breaks (w : ExceptT ε (StateM Output) Unit) (bytes : List UInt8) : Prop :=
  ∀ out : Output, out.room = none →
    ∃ e, w out = (.error e, { out with sent := out.sent ++ bytes })

namespace Breaks

theorem throw (e : ε) : Breaks (throw e : ExceptT ε (StateM Output) Unit) [] := by
  intro out _
  refine ⟨e, ?_⟩
  show (_, _) = _
  simp

theorem andThen (h : Breaks w b) : Breaks (w >>= k) b := by
  intro out hout
  obtain ⟨e, he⟩ := h out hout
  exact ⟨e, run_bind_error he⟩

theorem after (hw : Writes w b) (hk : Breaks (k ()) c) : Breaks (w >>= k) (b ++ c) := by
  intro out hout
  obtain ⟨e, he⟩ := hk { out with sent := out.sent ++ b } hout
  refine ⟨e, ?_⟩
  rw [run_bind_ok (hw out hout), he]
  simp

theorem adapt (f : ε → ε') (h : Breaks w b) : Breaks (ExceptT.adapt f w) b := by
  intro out hout
  obtain ⟨e, he⟩ := h out hout
  refine ⟨f e, ?_⟩
  rw [run_adapt, he]
  rfl

end Breaks

end Breaks

section WritesIf

variable {w : ExceptT ε (StateM Output) Unit} {k : Unit → ExceptT ε (StateM Output) Unit}
  {b : List UInt8} {ok ok' : Prop} {least : Nat}

/-- `w` gets to its end if `ok` holds, and otherwise fails behind at least `least` bytes. -/
structure WritesIf (ok : Prop) (least : Nat) (w : ExceptT ε (StateM Output) Unit) : Prop where
  writes : ok → ∃ bytes, Writes w bytes
  breaks : ¬ ok → ∃ bytes, least ≤ bytes.length ∧ Breaks w bytes

namespace WritesIf

theorem of_writes (h : Writes w b) (hok : ok) : WritesIf ok least w :=
  ⟨fun _ => ⟨b, h⟩, fun hnot => absurd hok hnot⟩

theorem of_breaks (h : Breaks w b) (hb : least ≤ b.length) (hnot : ¬ ok) : WritesIf ok least w :=
  ⟨fun hok => absurd hok hnot, fun _ => ⟨b, hb, h⟩⟩

theorem congr (h : WritesIf ok least w) (hiff : ok' ↔ ok) : WritesIf ok' least w :=
  ⟨fun hok => h.writes (hiff.mp hok), fun hnot => h.breaks fun hok => hnot (hiff.mpr hok)⟩

theorem mono {n : Nat} (h : WritesIf ok least w) (hn : n ≤ least) : WritesIf ok n w := by
  refine ⟨h.writes, fun hnot => ?_⟩
  obtain ⟨bytes, hbytes, hbreaks⟩ := h.breaks hnot
  exact ⟨bytes, Nat.le_trans hn hbytes, hbreaks⟩

theorem bind (h : WritesIf ok least w) (hk : WritesIf ok' least (k ())) :
    WritesIf (ok ∧ ok') least (w >>= k) := by
  constructor
  · rintro ⟨hok, hok'⟩
    obtain ⟨b, hb⟩ := h.writes hok
    obtain ⟨c, hc⟩ := hk.writes hok'
    exact ⟨b ++ c, hb.bind hc⟩
  · intro hnot
    by_cases hok : ok
    · obtain ⟨b, hb⟩ := h.writes hok
      obtain ⟨c, hlen, hc⟩ := hk.breaks fun hok' => hnot ⟨hok, hok'⟩
      refine ⟨b ++ c, ?_, .after hb hc⟩
      simp only [List.length_append]
      omega
    · obtain ⟨b, hlen, hb⟩ := h.breaks hok
      exact ⟨b, hlen, hb.andThen⟩

/-- What is written in front is left behind by a failure. -/
theorem after (hw : Writes w b) (hk : WritesIf ok 0 (k ())) : WritesIf ok b.length (w >>= k) := by
  constructor
  · intro hok
    obtain ⟨c, hc⟩ := hk.writes hok
    exact ⟨b ++ c, hw.bind hc⟩
  · intro hnot
    obtain ⟨c, -, hc⟩ := hk.breaks hnot
    refine ⟨b ++ c, ?_, .after hw hc⟩
    simp only [List.length_append]
    omega

/-- A step for each element of a list. -/
theorem forM {α : Type} {as : List α} {step : α → ExceptT ε (StateM Output) Unit} {ok : α → Prop}
    (h : ∀ a ∈ as, WritesIf (ok a) least (step a)) :
    WritesIf (∀ a ∈ as, ok a) least (as.forM step) := by
  induction as with
  | nil => exact .of_writes Writes.pure (List.forall_mem_nil _)
  | cons a as ih =>
    rw [List.forall_mem_cons] at h
    exact (h.1.bind (ih h.2)).congr List.forall_mem_cons

end WritesIf

end WritesIf

end ThriftRpc.Wire
