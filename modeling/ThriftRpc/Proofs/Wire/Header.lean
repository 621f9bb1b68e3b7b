import ThriftRpc.Proofs.Wire.Exact
import ThriftRpc.Proofs.Wire.Raises

/-!
# Reading message headers

A message header is read exactly off an input that starts with one of its two layouts, and it takes
nothing but the layout (`messageHeader_exact`).
-/

namespace ThriftRpc.Wire

variable {h : MessageHeader} {input rest : List UInt8}

/-- The layouts are all that a header can be read off. -/
theorem messageHeader_eq_ok_iff : Reader.messageHeader input = (.ok h, rest) ↔
    ∃ layout, Layout h layout ∧ input = layout ++ rest := by
  constructor
  · intro hread
    obtain ⟨layout, hinput, hlayout⟩ := Reader.messageHeader_takes hread
    exact ⟨layout, hlayout, hinput⟩
  · rintro ⟨layout, hlayout, rfl⟩
    exact hlayout.reads rest

/-- An input that starts with neither layout is faulty. -/
theorem messageHeader_refuses (hnone : ∀ h layout, Layout h layout → ¬ layout <+: input) :
    ∃ fault left, Reader.messageHeader input = (.error fault, left) ∧ fault.Inbound := by
  cases hread : Reader.messageHeader input with
  | mk answer left =>
    cases answer with
    | error fault => exact ⟨fault, left, rfl, Reader.messageHeader_raises hread⟩
    | ok h =>
      obtain ⟨layout, hlayout, rfl⟩ := messageHeader_eq_ok_iff.mp hread
      exact absurd (List.prefix_append layout left) (hnone h layout hlayout)

/-- Exactly two layouts are read, each to its end, and every other input is faulty. A header whose
name is not too long is written in one of them, and so it is read back, whatever follows. -/
theorem messageHeader_exact :
    (∀ input h rest, Reader.messageHeader input = (.ok h, rest) ↔
      ∃ layout, Layout h layout ∧ input = layout ++ rest) ∧
    (∀ input, (∀ h layout, Layout h layout → ¬ layout <+: input) →
      ∃ fault left, Reader.messageHeader input = (.error fault, left) ∧ fault.Inbound) ∧
    ∀ h : MessageHeader, (Text.Utf8.encode h.name).length ≤ Writer.maxSize →
      ∃ written, Layout h written ∧ Writes (Writer.messageHeader h) written ∧
        Reads Reader.messageHeader written h := by
  refine ⟨fun _ _ _ => messageHeader_eq_ok_iff, fun _ => messageHeader_refuses, fun h hname => ?_⟩
  obtain ⟨written, hlayout, hwrites⟩ := Writer.writes_header hname
  exact ⟨written, hlayout, hwrites, hlayout.reads⟩

/-- The old layout with a byte behind it, an unknown version, and a name of two bytes. -/
theorem messageHeader_exact_ping :
    Reader.messageHeader [0, 0, 0, 4, 0x70, 0x69, 0x6E, 0x67, 4, 0, 0, 0, 7, 0xFF] =
        (.ok ⟨"ping", .oneway, 7⟩, [0xFF]) ∧
      (∃ fault left, Reader.messageHeader [0x80, 0x02, 0, 1] = (.error fault, left) ∧
        fault.Inbound) ∧
      ∃ written, Layout ⟨"é", .call, 0⟩ written ∧
        Writes (Writer.messageHeader ⟨"é", .call, 0⟩) written ∧
          Reads Reader.messageHeader written ⟨"é", .call, 0⟩ := by
  obtain ⟨hread, hother, hwritten⟩ := messageHeader_exact
  refine ⟨(hread _ _ _).mpr ⟨_, .old (by decide +kernel), by decide +kernel⟩,
    hother _ ?_, hwritten _ (by decide +kernel)⟩
  rintro h layout hlayout ⟨rest, hrest⟩
  have hheader := hlayout.reads rest
  rw [hrest] at hheader
  cases hheader

end ThriftRpc.Wire
