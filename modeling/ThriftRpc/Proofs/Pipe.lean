import Mathlib.Data.List.DropRight
import ThriftRpc.Pipe

/-!
# What a pipe delivers

A run of a pipe is any interleaving of what its two ends do. In either direction the bytes written
are those read, those held at the reader, those on their way in chunks and those pending, in this
order (`Delivers`, kept by every step). So reads give a prefix of what was flushed, each of them
some more if there is more, and end the stream only when the writer is gone and all of that has been
read (`run_delivers`).
-/

namespace ThriftRpc.Pipe

/-- What happens at an end, with what it gave. -/
inductive Event where
  | wrote (e : End) (bytes : List UInt8)
  | flushed (e : End) (result : Except Wire.StreamFault Unit)
  | read (e : End) (size : Nat) (taken : List UInt8)
  | dropped (e : End)

/-- An end that was dropped does nothing any more. A read that would block has not happened yet. -/
inductive Step (p : Pipe) : Event → Pipe → Prop
  | write {e : End} (bytes : List UInt8) : (p.side e).dropped = false →
    Step p (.wrote e bytes) (p.write e bytes)
  | flush {e : End} {result : Except Wire.StreamFault Unit} {q : Pipe} :
    (p.side e).dropped = false → p.flush e = (result, q) → Step p (.flushed e result) q
  | read {e : End} {size : Nat} {taken : List UInt8} {q : Pipe} : (p.side e).dropped = false →
    p.read e size = (.bytes taken, q) → Step p (.read e size taken) q
  | drop {e : End} : (p.side e).dropped = false → Step p (.dropped e) (p.drop e)

/-- The events that led from a new pipe to `p`, the oldest first. -/
inductive Run : List Event → Pipe → Prop
  | new : Run [] {}
  | step {events : List Event} {event : Event} {p q : Pipe} :
    Run events p → Step p event q → Run (events ++ [event]) q

namespace Event

def writtenAt (e : End) : Event → List UInt8
  | wrote e' bytes => if e' = e then bytes else []
  | _ => []

def takenAt (e : End) : Event → List UInt8
  | read e' _ taken => if e' = e then taken else []
  | _ => []

def isFlushAt (e : End) : Event → Bool
  | flushed e' _ => e' = e
  | _ => false

end Event

def written (e : End) (events : List Event) : List UInt8 := events.flatMap (·.writtenAt e)

def taken (e : End) (events : List Event) : List UInt8 := events.flatMap (·.takenAt e)

/-- What was written at an end before it was last flushed. -/
def flushed (e : End) (events : List Event) : List UInt8 :=
  written e (events.rdropWhile fun event => !event.isFlushAt e)

section Events

variable {e : End} {events : List Event} {event : Event}

theorem written_append_singleton :
    written e (events ++ [event]) = written e events ++ event.writtenAt e := by
  simp [written]

theorem taken_append_singleton :
    taken e (events ++ [event]) = taken e events ++ event.takenAt e := by
  simp [taken]

theorem flushed_append_singleton : flushed e (events ++ [event]) =
    if event.isFlushAt e then written e (events ++ [event]) else flushed e events := by
  unfold flushed
  cases h : event.isFlushAt e
  · rw [List.rdropWhile_concat_pos _ _ _ (by simp [h]), if_neg Bool.false_ne_true]
  · rw [List.rdropWhile_concat_neg _ _ _ (by simp [h]), if_pos rfl]

theorem flushed_prefix : flushed e events <+: written e events := by
  obtain ⟨rest, hrest⟩ := List.rdropWhile_prefix (fun event : Event => !event.isFlushAt e) events
  refine ⟨written e rest, ?_⟩
  rw [flushed, written, written, ← List.flatMap_append, hrest, written]

end Events

section Ends

variable {p : Pipe} {e e' : End}

@[simp] theorem End.other_other (e : End) : e.other.other = e := by cases e <;> rfl

@[simp] theorem End.other_ne (e : End) : e.other ≠ e := by cases e <;> decide

@[simp] theorem End.ne_other (e : End) : e ≠ e.other := e.other_ne.symm

theorem End.eq_or_eq_other (e' e : End) : e' = e ∨ e' = e.other := by
  cases e <;> cases e' <;> decide

@[simp] theorem side_setSide (p : Pipe) (e : End) (s : Side) : (p.setSide e s).side e = s := by
  cases e <;> rfl

theorem side_setSide_of_ne (s : Side) (h : e' ≠ e) : (p.setSide e s).side e' = p.side e' := by
  cases e <;> cases e' <;> first | rfl | exact absurd rfl h

@[simp] theorem side_other_setSide (p : Pipe) (e : End) (s : Side) :
    (p.setSide e s).side e.other = p.side e.other := side_setSide_of_ne s e.other_ne

@[simp] theorem side_setSide_other (p : Pipe) (e : End) (s : Side) :
    (p.setSide e.other s).side e = p.side e := side_setSide_of_ne s e.ne_other

end Ends

/-! ## What one operation does -/

section Operations

variable {p q : Pipe} {e : End}

/-- A flush hands the bytes over, unless there are none or nobody is left to read them. -/
theorem flush_cases {result : Except Wire.StreamFault Unit} (h : p.flush e = (result, q)) :
    ((p.side e).pending = [] ∧ result = .ok () ∧ q = p) ∨
      ((p.side e.other).dropped = true ∧ result = .error .peerGone ∧
        q = p.setSide e { p.side e with pending := [] }) ∨
      ((p.side e).pending ≠ [] ∧ result = .ok () ∧
        q = (p.setSide e { p.side e with pending := [] }).setSide e.other { p.side e.other with
          arriving := (p.side e.other).arriving ++ [(p.side e).pending] }) := by
  unfold flush at h
  by_cases hpending : (p.side e).pending = []
  · rw [if_pos hpending] at h
    cases h
    exact .inl ⟨hpending, rfl, rfl⟩
  rw [if_neg hpending] at h
  by_cases hdropped : (p.side e.other).dropped = true
  · rw [if_pos hdropped] at h
    cases h
    exact .inr (.inl ⟨hdropped, rfl, rfl⟩)
  · rw [if_neg hdropped] at h
    cases h
    exact .inr (.inr ⟨hpending, rfl, rfl⟩)

/-- A read takes bytes of the current chunk, or else of the next one. It takes none if it asks for
none or finds the other end gone and nothing left. -/
theorem read_cases {size : Nat} {bytes : List UInt8} (h : p.read e size = (.bytes bytes, q)) :
    (bytes = [] ∧ q = p ∧ (size ≠ 0 → (p.side e).current = [] ∧ (p.side e).arriving = [] ∧
        (p.side e.other).dropped = true)) ∨
      ∃ chunk chunks, size ≠ 0 ∧ bytes = chunk.take size ∧
        q = p.setSide e { p.side e with current := chunk.drop size, arriving := chunks } ∧
        (((p.side e).current = chunk ∧ chunk ≠ [] ∧ (p.side e).arriving = chunks) ∨
          ((p.side e).current = [] ∧ (p.side e).arriving = chunk :: chunks)) := by
  unfold read at h
  by_cases hsize : size = 0
  · simp only [if_pos hsize] at h
    cases h
    exact .inl ⟨rfl, rfl, fun hne => absurd hsize hne⟩
  simp only [if_neg hsize] at h
  by_cases hcurrent : (p.side e).current = []
  · rw [if_neg (not_not.mpr hcurrent)] at h
    cases harriving : (p.side e).arriving with
    | nil =>
      rw [harriving] at h
      by_cases hdropped : (p.side e.other).dropped = true
      · rw [if_pos hdropped] at h
        cases h
        exact .inl ⟨rfl, rfl, fun _ => ⟨hcurrent, rfl, hdropped⟩⟩
      · rw [if_neg hdropped] at h
        cases h
    | cons chunk chunks =>
      rw [harriving] at h
      cases h
      exact .inr ⟨chunk, chunks, hsize, rfl, rfl, .inr ⟨hcurrent, rfl⟩⟩
  · rw [if_pos hcurrent] at h
    cases h
    exact .inr ⟨_, _, hsize, rfl, rfl, .inl ⟨rfl, hcurrent, rfl⟩⟩

end Operations

/-! ## One direction -/

/-- From `e` to the other end no byte is lost, comes twice or overtakes another. Only when the other
end is dropped are bytes lost that were on their way. -/
structure Delivers (e : End) (events : List Event) (p : Pipe) : Prop where
  pending : flushed e events ++ (p.side e).pending = written e events
  chunks : ∀ chunk ∈ (p.side e.other).arriving, chunk ≠ []
  reads : taken e.other events <+: flushed e events
  ahead : (p.side e.other).dropped = false → taken e.other events ++ (p.side e.other).current ++
    (p.side e.other).arriving.flatten = flushed e events

section Direction

variable {e : End} {events : List Event} {event : Event} {p q : Pipe}

theorem delivers_new (e : End) : Delivers e [] {} := by
  cases e <;> exact ⟨rfl, List.forall_mem_nil _, List.prefix_rfl, fun _ => rfl⟩

/-- An event that does not move the bytes of a direction. -/
theorem Delivers.keep (h : Delivers e events p) (hwritten : event.writtenAt e = [])
    (htaken : event.takenAt e.other = []) (hflush : event.isFlushAt e = false)
    (hpending : (q.side e).pending = (p.side e).pending)
    (hcurrent : (q.side e.other).current = (p.side e.other).current)
    (harriving : (q.side e.other).arriving = (p.side e.other).arriving)
    (hdropped : (q.side e.other).dropped = false → (p.side e.other).dropped = false) :
    Delivers e (events ++ [event]) q := by
  have hflushed : flushed e (events ++ [event]) = flushed e events := by
    rw [flushed_append_singleton, hflush, if_neg Bool.false_ne_true]
  have hread : taken e.other (events ++ [event]) = taken e.other events := by
    rw [taken_append_singleton, htaken, List.append_nil]
  constructor
  · rw [hflushed, hpending, written_append_singleton, hwritten, List.append_nil]
    exact h.pending
  · rw [harriving]
    exact h.chunks
  · rw [hread, hflushed]
    exact h.reads
  · intro halive
    rw [hread, hcurrent, harriving, hflushed]
    exact h.ahead (hdropped halive)

/-- What is written is pending. -/
theorem Delivers.write (h : Delivers e events p) (e' : End) (bytes : List UInt8) :
    Delivers e (events ++ [.wrote e' bytes]) (p.write e' bytes) := by
  rcases End.eq_or_eq_other e' e with rfl | rfl
  · have hwritten : written e' (events ++ [.wrote e' bytes]) = written e' events ++ bytes := by
      rw [written_append_singleton, Event.writtenAt, if_pos rfl]
    have hflushed : flushed e' (events ++ [.wrote e' bytes]) = flushed e' events :=
      flushed_append_singleton
    have hread : taken e'.other (events ++ [.wrote e' bytes]) = taken e'.other events :=
      taken_append_singleton.trans (List.append_nil _)
    have hside : (p.write e' bytes).side e'.other = p.side e'.other := side_other_setSide p e' _
    constructor
    · rw [hflushed, hwritten, ← h.pending, List.append_assoc]
      simp [Pipe.write]
    · rw [hside]
      exact h.chunks
    · rw [hread, hflushed]
      exact h.reads
    · rw [hread, hside, hflushed]
      exact h.ahead
  · exact h.keep (by simp [Event.writtenAt]) rfl rfl (by simp [Pipe.write]) (by simp [Pipe.write])
      (by simp [Pipe.write]) (by simp [Pipe.write])

/-- What was pending is a chunk on its way, if there is someone to read it. -/
theorem Delivers.flush (h : Delivers e events p) {e' : End} {result : Except Wire.StreamFault Unit}
    (hrun : p.flush e' = (result, q)) : Delivers e (events ++ [.flushed e' result]) q := by
  rcases End.eq_or_eq_other e' e with rfl | rfl
  · have hwritten : written e' (events ++ [.flushed e' result]) = written e' events :=
      written_append_singleton.trans (List.append_nil _)
    have hflushed : flushed e' (events ++ [.flushed e' result]) = written e' events := by
      rw [flushed_append_singleton, Event.isFlushAt, if_pos (by simp), hwritten]
    have hread : taken e'.other (events ++ [.flushed e' result]) = taken e'.other events :=
      taken_append_singleton.trans (List.append_nil _)
    have hreads : taken e'.other (events ++ [.flushed e' result]) <+:
        flushed e' (events ++ [.flushed e' result]) := by
      rw [hread, hflushed]
      exact h.reads.trans flushed_prefix
    rcases flush_cases hrun with ⟨hpending, -, rfl⟩ | ⟨hdropped, -, rfl⟩ | ⟨hpending, -, rfl⟩
    · refine ⟨?_, h.chunks, hreads, fun halive => ?_⟩
      · rw [hflushed, hpending, hwritten, List.append_nil]
      · rw [hread, h.ahead halive, hflushed, ← h.pending, hpending, List.append_nil]
    · refine ⟨?_, ?_, hreads, fun halive => ?_⟩
      · simp [hflushed, hwritten]
      · rw [side_other_setSide]
        exact h.chunks
      · rw [side_other_setSide, hdropped] at halive
        cases halive
    · refine ⟨?_, ?_, hreads, fun halive => ?_⟩
      · simp [hflushed, hwritten]
      · rw [side_setSide]
        refine List.forall_mem_append.mpr ⟨h.chunks, List.forall_mem_singleton.mpr hpending⟩
      · rw [side_setSide] at halive ⊢
        rw [hread, hflushed, ← h.pending, ← h.ahead halive]
        simp
  · have hother : Event.isFlushAt e (.flushed e.other result) = false := by simp [Event.isFlushAt]
    rcases flush_cases hrun with ⟨-, -, rfl⟩ | ⟨-, -, rfl⟩ | ⟨-, -, rfl⟩
    · exact h.keep rfl rfl hother rfl rfl rfl id
    · exact h.keep rfl rfl hother (by simp) (by simp) (by simp) (by simp)
    · exact h.keep rfl rfl hother (by simp) (by simp) (by simp) (by simp)

/-- What is read is the front of what is ahead. -/
theorem Delivers.read (h : Delivers e events p) {e' : End} {size : Nat} {bytes : List UInt8}
    (halive : (p.side e').dropped = false) (hrun : p.read e' size = (.bytes bytes, q)) :
    Delivers e (events ++ [.read e' size bytes]) q := by
  rcases End.eq_or_eq_other e' e with rfl | rfl
  · have hother : Event.takenAt e'.other (.read e' size bytes) = [] := by simp [Event.takenAt]
    rcases read_cases hrun with ⟨-, rfl, -⟩ | ⟨chunk, chunks, -, -, rfl, -⟩
    · exact h.keep rfl hother rfl rfl rfl rfl id
    · exact h.keep rfl hother rfl (by simp) (by simp) (by simp) (by simp)
  · rcases read_cases hrun with ⟨rfl, rfl, -⟩ | ⟨chunk, chunks, -, rfl, rfl, hnext⟩
    · exact h.keep rfl (by simp [Event.takenAt]) rfl rfl rfl rfl id
    have hwritten : written e (events ++ [.read e.other size (chunk.take size)]) =
        written e events := written_append_singleton.trans (List.append_nil _)
    have hflushed : flushed e (events ++ [.read e.other size (chunk.take size)]) =
        flushed e events := flushed_append_singleton
    have hread : taken e.other (events ++ [.read e.other size (chunk.take size)]) =
        taken e.other events ++ chunk.take size := by
      rw [taken_append_singleton, Event.takenAt, if_pos rfl]
    -- The bytes taken and what is left of their chunk are the chunk.
    have hahead : taken e.other events ++ chunk.take size ++ chunk.drop size ++ chunks.flatten =
        flushed e events := by
      rw [List.append_assoc (taken e.other events), List.take_append_drop, ← h.ahead halive]
      rcases hnext with ⟨hcurrent, -, harriving⟩ | ⟨hcurrent, harriving⟩
      · rw [hcurrent, harriving]
      · rw [hcurrent, harriving, List.flatten_cons, List.append_nil, List.append_assoc]
    refine ⟨?_, ?_, ?_, fun _ => ?_⟩
    · rw [hflushed, hwritten, side_setSide_other]
      exact h.pending
    · rw [side_setSide]
      rcases hnext with ⟨-, -, harriving⟩ | ⟨-, harriving⟩
      · exact harriving ▸ h.chunks
      · exact (List.forall_mem_cons.mp (harriving ▸ h.chunks)).2
    · rw [hread, hflushed, ← hahead, List.append_assoc _ (chunk.drop size)]
      exact List.prefix_append _ _
    · rw [hread, hflushed, side_setSide]
      exact hahead

theorem Delivers.drop (h : Delivers e events p) (e' : End) :
    Delivers e (events ++ [.dropped e']) (p.drop e') := by
  rcases End.eq_or_eq_other e' e with rfl | rfl
  · exact h.keep rfl rfl rfl (by simp [Pipe.drop]) (by simp [Pipe.drop]) (by simp [Pipe.drop])
      (by simp [Pipe.drop])
  · exact h.keep rfl rfl rfl (by simp [Pipe.drop]) (by simp [Pipe.drop]) (by simp [Pipe.drop])
      (by simp [Pipe.drop])

theorem Delivers.step (h : Delivers e events p) (hstep : Step p event q) :
    Delivers e (events ++ [event]) q := by
  cases hstep with
  | write bytes => exact h.write _ bytes
  | flush _ hrun => exact h.flush hrun
  | read halive hrun => exact h.read halive hrun
  | drop => exact h.drop _

theorem Run.delivers (h : Run events p) (e : End) : Delivers e events p := by
  induction h with
  | new => exact delivers_new e
  | step _ hstep ih => exact ih.step hstep

end Direction

/-! ## The end of the stream -/

section Ended

variable {e : End} {events : List Event} {event : Event} {p q : Pipe} {size : Nat}

theorem dropped_write (p : Pipe) (e' : End) (bytes : List UInt8) :
    ((p.write e' bytes).side e).dropped = (p.side e).dropped := by
  rcases End.eq_or_eq_other e e' with rfl | rfl <;> simp [Pipe.write]

theorem dropped_flush {e' : End} {result : Except Wire.StreamFault Unit}
    (h : p.flush e' = (result, q)) : (q.side e).dropped = (p.side e).dropped := by
  rcases flush_cases h with ⟨-, -, rfl⟩ | ⟨-, -, rfl⟩ | ⟨-, -, rfl⟩
  · rfl
  · rcases End.eq_or_eq_other e e' with rfl | rfl <;> simp
  · rcases End.eq_or_eq_other e e' with rfl | rfl <;> simp

theorem dropped_read {e' : End} {bytes : List UInt8} (h : p.read e' size = (.bytes bytes, q)) :
    (q.side e).dropped = (p.side e).dropped := by
  rcases read_cases h with ⟨-, rfl, -⟩ | ⟨_, _, -, -, rfl, -⟩
  · rfl
  · rcases End.eq_or_eq_other e e' with rfl | rfl <;> simp

theorem dropped_drop (p : Pipe) (e' : End) :
    ((p.drop e').side e).dropped = true ↔ (p.side e).dropped = true ∨ e' = e := by
  rcases End.eq_or_eq_other e e' with rfl | rfl <;> simp [Pipe.drop]

theorem Run.dropped_iff (h : Run events p) :
    (p.side e).dropped = true ↔ .dropped e ∈ events := by
  induction h with
  | new => cases e <;> exact ⟨nofun, nofun⟩
  | step _ hstep ih =>
    rw [List.mem_append, List.mem_singleton, ← ih]
    cases hstep with
    | write bytes => simp [dropped_write]
    | flush _ hrun => simp [dropped_flush hrun]
    | read _ hrun => simp [dropped_read hrun]
    | @drop e' => rw [dropped_drop, Event.dropped.injEq, eq_comm (a := e)]

/-- A read that asks for bytes gets none exactly if nothing is ahead and the writer is gone. -/
theorem read_nil_iff (hchunks : ∀ chunk ∈ (p.side e).arriving, chunk ≠ []) (hsize : size ≠ 0) :
    (∃ q, p.read e size = (.bytes [], q)) ↔ (p.side e.other).dropped = true ∧
      (p.side e).current ++ (p.side e).arriving.flatten = [] := by
  constructor
  · rintro ⟨q, hrun⟩
    rcases read_cases hrun with ⟨-, -, hend⟩ | ⟨chunk, chunks, -, hnil, -, hnext⟩
    · obtain ⟨hcurrent, harriving, hdropped⟩ := hend hsize
      simp [hcurrent, harriving, hdropped]
    · have hchunk : chunk = [] := (List.take_eq_nil_iff.mp hnil.symm).resolve_left hsize
      rcases hnext with ⟨-, hne, -⟩ | ⟨-, harriving⟩
      · exact absurd hchunk hne
      · exact absurd hchunk (hchunks chunk (harriving ▸ List.mem_cons_self))
  · rintro ⟨hdropped, hnil⟩
    rw [List.append_eq_nil_iff, List.flatten_eq_nil_iff] at hnil
    have harriving : (p.side e).arriving = [] :=
      List.eq_nil_iff_forall_not_mem.mpr fun chunk hc => hchunks chunk hc (hnil.2 chunk hc)
    exact ⟨p, by simp [Pipe.read, hsize, hnil.1, harriving, hdropped]⟩

/-- A read that asks for bytes while some are ahead gives a front of them, which is not empty. -/
theorem read_ahead (hchunks : ∀ chunk ∈ (p.side e).arriving, chunk ≠ []) (hsize : size ≠ 0)
    (hahead : (p.side e).current ++ (p.side e).arriving.flatten ≠ []) :
    ∃ bytes q, p.read e size = (.bytes bytes, q) ∧ bytes ≠ [] ∧ bytes.length ≤ size ∧
      bytes <+: (p.side e).current ++ (p.side e).arriving.flatten := by
  have hfront {chunk : List UInt8} (hchunk : chunk ≠ []) : chunk.take size ≠ [] := fun hnil =>
    (List.take_eq_nil_iff.mp hnil).elim hsize hchunk
  unfold read
  simp only [if_neg hsize]
  by_cases hcurrent : (p.side e).current = []
  · rw [if_neg (not_not.mpr hcurrent)]
    cases harriving : (p.side e).arriving with
    | nil => exact absurd (by rw [hcurrent, harriving]; rfl) hahead
    | cons chunk chunks =>
      have hchunk := hchunks chunk (harriving ▸ List.mem_cons_self)
      refine ⟨_, _, rfl, hfront hchunk, List.length_take_le _ _, ?_⟩
      rw [hcurrent, List.nil_append, List.flatten_cons]
      exact (List.take_prefix _ _).trans (List.prefix_append _ _)
  · rw [if_pos hcurrent]
    exact ⟨_, _, rfl, hfront hcurrent, List.length_take_le _ _,
      (List.take_prefix _ _).trans (List.prefix_append _ _)⟩

end Ended

/-- Whatever both ends did: until the reader is dropped, what was written is what was read, what the
reader holds, what is on its way and what is pending, in this order. What was read is a prefix of
what was flushed. A read that asks for bytes ends the stream exactly if the writer was dropped and
all that was flushed has been read; before that, it gives the next of what was flushed. -/
theorem run_delivers {events : List Event} {p : Pipe} (h : Run events p) (e : End) :
    (.dropped e.other ∉ events → taken e.other events ++ (p.side e.other).current ++
      (p.side e.other).arriving.flatten ++ (p.side e).pending = written e events) ∧
    taken e.other events <+: flushed e events ∧
    (.dropped e.other ∉ events → ∀ size, size ≠ 0 →
      ((∃ q, p.read e.other size = (.bytes [], q)) ↔
        .dropped e ∈ events ∧ taken e.other events = flushed e events) ∧
      (taken e.other events ≠ flushed e events →
        ∃ bytes q, p.read e.other size = (.bytes bytes, q) ∧ bytes ≠ [] ∧ bytes.length ≤ size ∧
          taken e.other events ++ bytes <+: flushed e events)) := by
  have hdelivers := h.delivers e
  have halive (hdropped : .dropped e.other ∉ events) : (p.side e.other).dropped = false :=
    Bool.eq_false_iff.mpr fun hd => hdropped (h.dropped_iff.mp hd)
  refine ⟨fun hdropped => ?_, hdelivers.reads, fun hdropped size hsize => ?_⟩
  · rw [hdelivers.ahead (halive hdropped), hdelivers.pending]
  have hahead := hdelivers.ahead (halive hdropped)
  rw [List.append_assoc] at hahead
  refine ⟨?_, fun hmore => ?_⟩
  · rw [read_nil_iff hdelivers.chunks hsize, End.other_other, h.dropped_iff, ← hahead,
      List.self_eq_append_right]
  · have hsome : (p.side e.other).current ++ (p.side e.other).arriving.flatten ≠ [] := fun hnil =>
      hmore (by rw [← hahead, hnil, List.append_nil])
    obtain ⟨bytes, q, hread, hne, hlength, hfront⟩ := read_ahead hdelivers.chunks hsize hsome
    refine ⟨bytes, q, hread, hne, hlength, ?_⟩
    rw [← hahead]
    exact (List.prefix_append_right_inj _).mpr hfront

/-- Two chunks on their way and a byte that is never flushed. -/
def twoChunks : List Event :=
  [.wrote .left [1, 2, 3], .flushed .left (.ok ()), .wrote .left [4, 5], .flushed .left (.ok ()),
    .wrote .left [6]]

/-- The first chunk is read in two parts, then the writer is dropped and the second one read. -/
def droppedEarly : List Event :=
  twoChunks ++ [.read .right 2 [1, 2], .read .right 5 [3], .dropped .left, .read .right 5 [4, 5]]

theorem run_delivers_droppedEarly :
    (∃ p, Run twoChunks p ∧ ∃ bytes q, p.read .right 2 = (.bytes bytes, q) ∧ bytes ≠ [] ∧
      bytes <+: [1, 2, 3, 4, 5]) ∧
    ∃ p, Run droppedEarly p ∧ taken .right droppedEarly ++ p.right.current ++
        p.right.arriving.flatten ++ p.left.pending = [1, 2, 3, 4, 5, 6] ∧
      taken .right droppedEarly <+: [1, 2, 3, 4, 5] ∧ ∃ q, p.read .right 1 = (.bytes [], q) := by
  have htwo : Run twoChunks
      { left := { pending := [6] }, right := { arriving := [[1, 2, 3], [4, 5]] } } :=
    .step (.step (.step (.step (.step .new (.write _ rfl)) (.flush rfl rfl)) (.write _ rfl))
      (.flush rfl rfl)) (.write _ rfl)
  have hrun : Run droppedEarly { left := { pending := [6], dropped := true } } :=
    .step (.step (.step (.step htwo (.read rfl rfl)) (.read rfl rfl)) (.drop rfl)) (.read rfl rfl)
  obtain ⟨-, -, hnext⟩ := run_delivers htwo .left
  obtain ⟨hwritten, hprefix, hended⟩ := run_delivers hrun .left
  have hthere : .dropped .right ∉ droppedEarly := by simp [droppedEarly, twoChunks]
  refine ⟨⟨_, htwo, ?_⟩, _, hrun, hwritten hthere, hprefix,
    (hended hthere 1 Nat.one_ne_zero).1.mpr ⟨by simp [droppedEarly], rfl⟩⟩
  obtain ⟨bytes, q, hread, hne, -, hfront⟩ :=
    (hnext (by simp [twoChunks, End.other]) 2 (by decide)).2 nofun
  exact ⟨bytes, q, hread, hne, hfront⟩

end ThriftRpc.Pipe
