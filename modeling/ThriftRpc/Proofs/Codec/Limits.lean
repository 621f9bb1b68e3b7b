import ThriftRpc.Proofs.Codec.RoundTrip
import ThriftRpc.Proofs.Codec.Skip

/-!
# The two limits on nesting

Decoding and skipping both allow 64 levels, but decoding counts structs and containers and skipping
counts scalars as well. So a value with a scalar inside 64 structs and containers is sent and read
back, and whoever does not know it cannot skip it; every other value that is read back is skipped
(`skip_limit_iff`).
-/

namespace ThriftRpc.Codec

open Wire

/-- What is sent is a tree that nests as the prepared value does, and that is read back if it is
within the limit. -/
theorem encoded_node {s : Schema} {ty : Ty} {v p : Value} {w : WireType} (hs : s.Regular)
    (hty : s.Resolves ty) (hw : wireType s ty = .ok w) (h : prepare s ty v = .ok p)
    (hl : p.longest ≤ Writer.maxSize) :
    ∃ node : Node w, Writes (encode s ty v) node.bytes ∧ node.depth = p.depth ∧
      ReadsIf (p.depth ≤ depthLimit) 0 (.wire .depthLimit) (decode s ty w) node.bytes (some p) := by
  obtain ⟨shape, hr⟩ := exists_resolve hty
  cases hw.symm.trans (wireType_eq hr)
  have hconforms := prepare_conforms (fun d hd => (hs.structs d hd).names) h
  obtain ⟨node, hnode, hheight⟩ := written_node hs.isKeyed.structs hconforms
    (writable_of_conforms hs.complete hconforms hty hl) hr
  obtain ⟨bytes, hwrites, hreads⟩ := write_carried hs hconforms hty hr hl depthLimit
  cases hwrites.unique hnode
  refine ⟨node, ?_, hheight 0, hreads⟩
  unfold encode
  rw [h]
  exact hnode

/-- Skipping honours its limit on every well-formed value but a brimful one. What is sent is a
well-formed value that is read back within the limit, and then it is skipped unless it is
brimful. -/
theorem skip_limit_iff (w : WireType) :
    (∀ node : Node w, node.HonoursLimit ↔ ¬node.Brimful) ∧
      ∀ {s : Schema} {ty : Ty} {v p : Value}, s.Regular → s.Resolves ty →
        wireType s ty = .ok w → prepare s ty v = .ok p → p.longest ≤ Writer.maxSize →
        ∃ node : Node w, Writes (encode s ty v) node.bytes ∧ node.depth = p.depth ∧
          (Reads (decode s ty w) node.bytes (some p) ↔ p.depth ≤ depthLimit) ∧
          (p.depth ≤ depthLimit → (Reads (Reader.skip w) node.bytes () ↔ ¬node.Brimful)) := by
  refine ⟨fun node => node.honoursLimit_iff, fun hs hty hw h hl => ?_⟩
  obtain ⟨node, hwrites, hdepth, hdecode⟩ := encoded_node hs hty hw h hl
  refine ⟨node, hwrites, hdepth, hdecode.reads_iff, fun hlimit => ?_⟩
  have hskip := (node.skipped Reader.skipLimit).reads_iff
  have hnested : node.depth ≤ Reader.skipLimit := hdepth ▸ hlimit
  rw [node.not_brimful_iff, iff_true_left hnested]
  exact hskip

theorem skip_limit_points :
    (Node.nested 62).HonoursLimit ∧
      ∃ node : Node .set, Writes (encode pointSchema (.named "Points") (.list [])) node.bytes ∧
        Reads (Reader.skip .set) node.bytes () := by
  have hnested : ¬(Node.nested 62).Brimful := fun h => by
    have hdepth : 63 = Reader.skipLimit := (Node.height_nested 0 62).symm.trans h.1
    exact absurd hdepth (by decide)
  have hty : pointSchema.Resolves (.named "Points") := by decide
  have hprepare : prepare pointSchema (.named "Points") (.list []) = .ok (.set []) := rfl
  obtain ⟨node, hwrites, hdepth, -, hskip⟩ :=
    (skip_limit_iff .set).2 (by decide) hty rfl hprepare (by decide)
  have hnode : ¬node.Brimful := fun h => absurd (hdepth.symm.trans h.1) (by decide)
  exact ⟨((skip_limit_iff .list).1 _).mpr hnested, node, hwrites, (hskip (by decide)).mpr hnode⟩

end ThriftRpc.Codec
