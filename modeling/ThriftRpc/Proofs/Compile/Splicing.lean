import ThriftRpc.Compile.Expand

/-!
# Splicing included files

What include expansion is, said without the expander: `Expands` relates the nodes of a file to the
nodes that take their place, and `Fails` to the first fault on the way. Every include, from left to
right, stands for the expanded nodes of its file where the file is met first, and for nothing
afterwards; a file is met again within its own expansion if it is on the stack.

One of the two holds of every program (`expands_or_fails`): each level of includes meets another
file. If every included file can be read and none is included from within its own expansion, it is
the former (`exists_expands`).
-/

namespace ThriftRpc.Compile

open Files (Path)
open Idl (Node)

/-- The nodes of the file that a path stands for, if there is one; or what is wrong with its text. -/
def content (files : List (Path × String)) (path : Path) :
    Option (Except Idl.ParseError (List Node)) :=
  (files.find? fun f => f.1.same path).map fun f => Idl.parse f.2

/-- One of the paths is the same, component by component. -/
def Listed (paths : List Path) (path : Path) : Prop := paths.any (·.same path) = true

instance (paths : List Path) (path : Path) : Decidable (Listed paths path) :=
  inferInstanceAs (Decidable (_ = true))

/-- A node that is no include stays as it is. -/
def Stays (n : Node) : Prop := ∀ path, n ≠ .inclusion path

variable {files : List (Path × String)} {stack met met' : List Path} {nodes out : List Node}

/-- `Expands files stack met nodes met' out`: while the files of `stack` are being expanded and those
of `met` have been met, `nodes` stand for `out`, and `met'` have been met then. -/
inductive Expands (files : List (Path × String)) :
    List Path → List Path → List Node → List Path → List Node → Prop
  | nil {stack met : List Path} : Expands files stack met [] met []
  | node {stack met met' : List Path} {n : Node} {rest out : List Node} :
    Stays n → Expands files stack met rest met' out →
      Expands files stack met (n :: rest) met' (n :: out)
  | again {stack met met' : List Path} {path : String} {rest out : List Node} :
    (content files ⟨path⟩).isSome = true → ¬ Listed stack ⟨path⟩ → Listed met ⟨path⟩ →
      Expands files stack met rest met' out →
      Expands files stack met (.inclusion path :: rest) met' out
  | first {stack met met' met'' : List Path} {path : String} {rest inner out out' : List Node} :
    content files ⟨path⟩ = some (.ok inner) → ¬ Listed stack ⟨path⟩ → ¬ Listed met ⟨path⟩ →
      Expands files (stack ++ [⟨path⟩]) (⟨path⟩ :: met) inner met' out →
      Expands files stack met' rest met'' out' →
      Expands files stack met (.inclusion path :: rest) met'' (out ++ out')

/-- The first fault of an expansion, from left to right and into each file where it is met first. -/
inductive Fails (files : List (Path × String)) :
    List Path → List Path → List Node → Fault → Prop
  | missing {stack met : List Path} {path : String} {rest : List Node} :
    content files ⟨path⟩ = none →
      Fails files stack met (.inclusion path :: rest) (.includeNotFound path)
  | cycle {stack met : List Path} {path : String} {rest : List Node} :
    (content files ⟨path⟩).isSome = true → Listed stack ⟨path⟩ →
      Fails files stack met (.inclusion path :: rest) (.includeCycle (stack ++ [⟨path⟩]))
  | malformed {stack met : List Path} {path : String} {rest : List Node} {e : Idl.ParseError} :
    content files ⟨path⟩ = some (.error e) → ¬ Listed stack ⟨path⟩ → ¬ Listed met ⟨path⟩ →
      Fails files stack met (.inclusion path :: rest) (.malformed ⟨path⟩ e)
  | inside {stack met : List Path} {path : String} {rest inner : List Node} {fault : Fault} :
    content files ⟨path⟩ = some (.ok inner) → ¬ Listed stack ⟨path⟩ → ¬ Listed met ⟨path⟩ →
      Fails files (stack ++ [⟨path⟩]) (⟨path⟩ :: met) inner fault →
      Fails files stack met (.inclusion path :: rest) fault
  | node {stack met : List Path} {n : Node} {rest : List Node} {fault : Fault} :
    Stays n → Fails files stack met rest fault → Fails files stack met (n :: rest) fault
  | again {stack met : List Path} {path : String} {rest : List Node} {fault : Fault} :
    (content files ⟨path⟩).isSome = true → ¬ Listed stack ⟨path⟩ → Listed met ⟨path⟩ →
      Fails files stack met rest fault → Fails files stack met (.inclusion path :: rest) fault
  | first {stack met met' : List Path} {path : String} {rest inner out : List Node}
      {fault : Fault} :
    content files ⟨path⟩ = some (.ok inner) → ¬ Listed stack ⟨path⟩ → ¬ Listed met ⟨path⟩ →
      Expands files (stack ++ [⟨path⟩]) (⟨path⟩ :: met) inner met' out →
      Fails files stack met' rest fault → Fails files stack met (.inclusion path :: rest) fault

/-- The files that have not been met. -/
def unmet (files : List (Path × String)) (met : List Path) : List (Path × String) :=
  files.filter fun f => !met.any (·.same f.1)

theorem unmet_cons (path : Path) :
    unmet files (path :: met) = (unmet files met).filter fun f => !path.same f.1 := by
  unfold unmet
  rw [List.filter_filter]
  refine List.filter_congr fun f _ => ?_
  rw [List.any_cons, Bool.not_or]

theorem length_unmet_cons_le (path : Path) :
    (unmet files (path :: met)).length ≤ (unmet files met).length := by
  rw [unmet_cons]
  exact List.length_filter_le _ _

/-- A file that is met for the first time is one less to be met. -/
theorem length_unmet_cons_lt {path : Path} (hfile : (content files path).isSome = true)
    (hmet : ¬ Listed met path) :
    (unmet files (path :: met)).length < (unmet files met).length := by
  unfold content at hfile
  rw [Option.isSome_map] at hfile
  obtain ⟨f, hf⟩ := Option.isSome_iff_exists.mp hfile
  have hcomponents : f.1.components = path.components := by
    simpa [Path.same] using List.find?_some hf
  have hany : met.any (·.same f.1) = met.any (·.same path) := by
    simp only [Path.same, hcomponents]
  rw [unmet_cons, List.length_filter_lt_length_iff_exists]
  refine ⟨f, List.mem_filter.mpr ⟨List.mem_of_find?_eq_some hf, ?_⟩, ?_⟩
  · rw [hany, Bool.eq_false_iff.mpr hmet]
    rfl
  · simp [Path.same, hcomponents]

theorem Expands.length_unmet_le (h : Expands files stack met nodes met' out) :
    (unmet files met').length ≤ (unmet files met).length := by
  induction h with
  | nil => exact Nat.le_refl _
  | node _ _ ih => exact ih
  | again _ _ _ _ ih => exact ih
  | first _ _ _ _ _ ihin ih => exact Nat.le_trans ih (Nat.le_trans ihin (length_unmet_cons_le _))

/-! ## One or the other -/

/-- The nodes have an expansion or a first fault. -/
def Settled (files : List (Path × String)) (stack met : List Path) (nodes : List Node) : Prop :=
  (∃ met' out, Expands files stack met nodes met' out) ∨ ∃ fault, Fails files stack met nodes fault

namespace Settled

variable {rest : List Node} {path : String}

theorem node {n : Node} (hn : Stays n) (h : Settled files stack met rest) :
    Settled files stack met (n :: rest) := by
  rcases h with ⟨met', out, h⟩ | ⟨fault, h⟩
  · exact .inl ⟨met', n :: out, .node hn h⟩
  · exact .inr ⟨fault, .node hn h⟩

theorem again (hfile : (content files ⟨path⟩).isSome = true) (hstack : ¬ Listed stack ⟨path⟩)
    (hmet : Listed met ⟨path⟩) (h : Settled files stack met rest) :
    Settled files stack met (.inclusion path :: rest) := by
  rcases h with ⟨met', out, h⟩ | ⟨fault, h⟩
  · exact .inl ⟨met', out, .again hfile hstack hmet h⟩
  · exact .inr ⟨fault, .again hfile hstack hmet h⟩

/-- What is met within the file is known when the rest follows. -/
theorem first {inner : List Node} (hc : content files ⟨path⟩ = some (.ok inner))
    (hstack : ¬ Listed stack ⟨path⟩) (hmet : ¬ Listed met ⟨path⟩)
    (hinner : Settled files (stack ++ [⟨path⟩]) (⟨path⟩ :: met) inner)
    (hrest : ∀ met', (unmet files met').length ≤ (unmet files (⟨path⟩ :: met)).length →
      Settled files stack met' rest) :
    Settled files stack met (.inclusion path :: rest) := by
  rcases hinner with ⟨met', out, h⟩ | ⟨fault, h⟩
  · rcases hrest met' h.length_unmet_le with ⟨met'', out', h'⟩ | ⟨fault, h'⟩
    · exact .inl ⟨met'', out ++ out', .first hc hstack hmet h h'⟩
    · exact .inr ⟨fault, .first hc hstack hmet h h'⟩
  · exact .inr ⟨fault, .inside hc hstack hmet h⟩

end Settled

theorem expands_or_fails (files : List (Path × String)) (stack met : List Path)
    (nodes : List Node) : Settled files stack met nodes := by
  -- Into a file there is one less to be met; the rest of the nodes follow with no more of them.
  induction hn : (unmet files met).length using Nat.strongRecOn generalizing stack met nodes with
  | ind n ih =>
    subst hn
    suffices hfewer : ∀ met', (unmet files met').length ≤ (unmet files met).length →
        Settled files stack met' nodes from hfewer met (Nat.le_refl _)
    induction nodes with
    | nil => exact fun met' _ => .inl ⟨met', [], .nil⟩
    | cons n rest ihrest =>
      intro met' hmet'
      by_cases hn : Stays n
      · exact (ihrest met' hmet').node hn
      obtain ⟨path, rfl⟩ : ∃ path, n = .inclusion path := by
        simpa [Stays] using hn
      cases hc : content files ⟨path⟩ with
      | none => exact .inr ⟨_, .missing hc⟩
      | some parsed =>
        have hfile : (content files ⟨path⟩).isSome = true := by
          rw [hc]
          rfl
        by_cases hstack : Listed stack ⟨path⟩
        · exact .inr ⟨_, .cycle hfile hstack⟩
        by_cases hseen : Listed met' ⟨path⟩
        · exact (ihrest met' hmet').again hfile hstack hseen
        cases parsed with
        | error e => exact .inr ⟨_, .malformed hc hstack hseen⟩
        | ok inner =>
          have hless := Nat.lt_of_lt_of_le (length_unmet_cons_lt hfile hseen) hmet'
          exact .first hc hstack hseen (ih _ hless _ _ inner rfl) fun met'' hmet'' =>
            ihrest met'' (Nat.le_trans hmet'' (Nat.le_of_lt hless))

/-- What is left of a program has no includes. -/
theorem Expands.stays (h : Expands files stack met nodes met' out) : ∀ n ∈ out, Stays n := by
  induction h with
  | nil => exact List.forall_mem_nil _
  | node hn _ ih => exact List.forall_mem_cons.mpr ⟨hn, ih⟩
  | again _ _ _ _ ih => exact ih
  | first _ _ _ _ _ ihin ih => exact List.forall_mem_append.mpr ⟨ihin, ih⟩

/-- Nodes without includes stand for themselves. -/
theorem expands_of_stays (h : ∀ n ∈ nodes, Stays n) :
    Expands files stack met nodes met nodes := by
  induction nodes with
  | nil => exact .nil
  | cons n nodes ih =>
    rw [List.forall_mem_cons] at h
    exact .node h.1 (ih h.2)

/-! ## Programs without cycles -/

/-- The path is included by the nodes or, through other files, by an include among them. -/
inductive Includes (files : List (Path × String)) : List Node → Path → Prop
  | direct {nodes : List Node} {path : String} :
    .inclusion path ∈ nodes → Includes files nodes ⟨path⟩
  | through {nodes inner : List Node} {path : String} {target : Path} :
    .inclusion path ∈ nodes → content files ⟨path⟩ = some (.ok inner) →
      Includes files inner target → Includes files nodes target

theorem Includes.mono {nodes' : List Node} {path : Path} (h : Includes files nodes path)
    (hsub : nodes ⊆ nodes') : Includes files nodes' path := by
  cases h with
  | direct hmem => exact .direct (hsub hmem)
  | through hmem hc hinner => exact .through (hsub hmem) hc hinner

theorem not_includes_nil {path : Path} : ¬ Includes files [] path := by
  intro h
  cases h with
  | direct hmem => cases hmem
  | through hmem => cases hmem

theorem includes_inclusion_iff {path : String} {target : Path} :
    Includes files (.inclusion path :: nodes) target ↔ target = ⟨path⟩ ∨
      (∃ inner, content files ⟨path⟩ = some (.ok inner) ∧ Includes files inner target) ∨
      Includes files nodes target := by
  constructor
  · intro h
    cases h with
    | direct hmem =>
      rcases List.mem_cons.mp hmem with heq | hmem
      · cases heq
        exact .inl rfl
      · exact .inr (.inr (.direct hmem))
    | through hmem hc hinner =>
      rcases List.mem_cons.mp hmem with heq | hmem
      · cases heq
        exact .inr (.inl ⟨_, hc, hinner⟩)
      · exact .inr (.inr (.through hmem hc hinner))
  · rintro (rfl | ⟨inner, hc, hinner⟩ | h)
    · exact .direct List.mem_cons_self
    · exact .through List.mem_cons_self hc hinner
    · exact h.mono (List.subset_cons_self _ _)

theorem includes_cons_iff {n : Node} (hn : Stays n) {target : Path} :
    Includes files (n :: nodes) target ↔ Includes files nodes target := by
  refine ⟨fun h => ?_, fun h => h.mono (List.subset_cons_self _ _)⟩
  cases h with
  | direct hmem => exact .direct ((List.mem_cons.mp hmem).resolve_left fun heq => hn _ heq.symm)
  | through hmem hc hinner =>
    exact .through ((List.mem_cons.mp hmem).resolve_left fun heq => hn _ heq.symm) hc hinner

/-- Every included file exists and can be read. -/
def Readable (files : List (Path × String)) (nodes : List Node) : Prop :=
  ∀ path, Includes files nodes path → ∃ inner, content files path = some (.ok inner)

/-- No file is included from within its own expansion. -/
def Acyclic (files : List (Path × String)) (nodes : List Node) : Prop :=
  ∀ path inner, Includes files nodes path → content files path = some (.ok inner) →
    ∀ target, Includes files inner target → path.same target = false

/-- The files of the stack lead to the nodes that are being expanded. -/
structure Above (files : List (Path × String)) (root : List Node) (stack : List Path)
    (nodes : List Node) : Prop where
  reached : ∀ path, Includes files nodes path → Includes files root path
  leads : ∀ file ∈ stack, Includes files root file ∧ ∃ inner, content files file = some (.ok inner) ∧
    ∀ path, Includes files nodes path → Includes files inner path

namespace Above

variable {root rest inner : List Node} {n : Node} {path : String}

theorem tail (h : Above files root stack (n :: rest)) : Above files root stack rest := by
  have hsub : rest ⊆ n :: rest := List.subset_cons_self n rest
  refine ⟨fun path hp => h.reached path (hp.mono hsub), fun file hfile => ?_⟩
  obtain ⟨hroot, inner, hc, hall⟩ := h.leads file hfile
  exact ⟨hroot, inner, hc, fun path hp => hall path (hp.mono hsub)⟩

theorem enter (h : Above files root stack (.inclusion path :: rest))
    (hc : content files ⟨path⟩ = some (.ok inner)) :
    Above files root (stack ++ [⟨path⟩]) inner := by
  have hinner : ∀ target, Includes files inner target →
      Includes files (.inclusion path :: rest) target := fun target ht =>
    .through List.mem_cons_self hc ht
  refine ⟨fun target ht => h.reached target (hinner target ht), fun file hfile => ?_⟩
  rcases List.mem_append.mp hfile with hfile | hfile
  · obtain ⟨hroot, nodes, hnodes, hall⟩ := h.leads file hfile
    exact ⟨hroot, nodes, hnodes, fun target ht => hall target (hinner target ht)⟩
  · rw [List.mem_singleton.mp hfile]
    exact ⟨h.reached _ (.direct List.mem_cons_self), inner, hc, fun _ ht => ht⟩

end Above

theorem Fails.not_readable_acyclic {root : List Node} {fault : Fault}
    (h : Fails files stack met nodes fault) (habove : Above files root stack nodes) :
    ¬ (Readable files root ∧ Acyclic files root) := by
  rintro ⟨hreadable, hacyclic⟩
  induction h with
  | missing hc =>
    obtain ⟨inner, hinner⟩ := hreadable _ (habove.reached _ (.direct List.mem_cons_self))
    cases hc.symm.trans hinner
  | @cycle stack _ path _ _ hstack =>
    obtain ⟨file, hfile, hsame⟩ := List.any_eq_true.mp hstack
    obtain ⟨hroot, inner, hc, hall⟩ := habove.leads file hfile
    have hnot := hacyclic file inner hroot hc _ (hall _ (.direct List.mem_cons_self))
    cases hsame.symm.trans hnot
  | malformed hc =>
    obtain ⟨inner, hinner⟩ := hreadable _ (habove.reached _ (.direct List.mem_cons_self))
    cases hc.symm.trans hinner
  | inside hc _ _ _ ih => exact ih (habove.enter hc)
  | node _ _ ih => exact ih habove.tail
  | again _ _ _ _ ih => exact ih habove.tail
  | first _ _ _ _ _ ih => exact ih habove.tail

/-- A program without cycles whose files can all be read has an expansion. -/
theorem exists_expands (hreadable : Readable files nodes) (hacyclic : Acyclic files nodes) :
    ∃ met out, Expands files [] [] nodes met out := by
  refine (expands_or_fails files [] [] nodes).resolve_right ?_
  rintro ⟨fault, h⟩
  exact h.not_readable_acyclic ⟨fun _ hp => hp, List.forall_mem_nil _⟩ ⟨hreadable, hacyclic⟩

end ThriftRpc.Compile
