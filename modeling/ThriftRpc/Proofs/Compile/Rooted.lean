import ThriftRpc.Proofs.Compile.Splicing

/-!
# Programs that are files themselves

A program that is a file is on the stack while it is expanded, and met from the start; any other
program is neither. For what it expands to this makes no difference (`Expands.unrooted`,
`Fails.unrooted`). Where the program is included from within its own expansion, the one expansion
stops. The other expands the program for the second time and stops as well: the includes that come
before the one it is within have all been met, and that one is on the stack.
-/

namespace ThriftRpc.Compile

open Files (Path)
open Idl (Node)

/-- What is wrong, whatever the paths are that it is told with. -/
def Fault.unplaced : Fault → Fault
  | malformed _ error => malformed ⟨""⟩ error
  | includeCycle _ => includeCycle []
  | fault => fault

variable {files : List (Path × String)} {root : Path} {stack met met' seen : List Path}
  {nodes rest out : List Node} {fault : Fault}

section Same

variable {p q : Path} {paths paths' : List Path}

theorem same_iff : p.same q = true ↔ p.components = q.components := beq_iff_eq

theorem listed_congr (h : p.same q = true) : Listed paths p ↔ Listed paths q := by
  simp only [Listed, Path.same, same_iff.mp h]

theorem content_congr (h : p.same q = true) : content files p = content files q := by
  simp only [content, Path.same, same_iff.mp h]

theorem not_listed_nil : ¬ Listed [] q := Bool.false_ne_true

theorem listed_cons : Listed (p :: paths) q ↔ p.same q = true ∨ Listed paths q := by
  simp [Listed]

theorem listed_append : Listed (paths ++ paths') q ↔ Listed paths q ∨ Listed paths' q := by
  simp [Listed]

theorem listed_singleton : Listed [p] q ↔ p.same q = true := by
  simp [Listed]

end Same

/-- The includes among the nodes are of files that have been met, and are not being expanded. -/
def Passed (files : List (Path × String)) (stack met : List Path) (nodes : List Node) : Prop :=
  ∀ path, .inclusion path ∈ nodes →
    (content files ⟨path⟩).isSome = true ∧ ¬ Listed stack ⟨path⟩ ∧ Listed met ⟨path⟩

theorem Passed.mono (h : Passed files stack met nodes)
    (hmet : ∀ path, Listed met path → Listed met' path) : Passed files stack met' nodes :=
  fun path hpath => (h path hpath).imp_right (.imp_right (hmet ⟨path⟩))

/-- A file that is met only now is not one of those that have been met. -/
theorem Passed.enter {path : Path} (h : Passed files stack met nodes) (hmet : ¬ Listed met path) :
    Passed files (stack ++ [path]) (path :: met) nodes := by
  intro p hp
  obtain ⟨hfile, hnot, hlisted⟩ := h p hp
  refine ⟨hfile, fun hstack => ?_, listed_cons.mpr (.inr hlisted)⟩
  rcases listed_append.mp hstack with hstack | hsame
  · exact hnot hstack
  · exact hmet ((listed_congr (listed_singleton.mp hsame)).mpr hlisted)

theorem Expands.listed_mono (h : Expands files stack met nodes met' out) {path : Path}
    (hmet : Listed met path) : Listed met' path := by
  induction h with
  | nil => exact hmet
  | node _ _ ih => exact ih hmet
  | again _ _ _ _ ih => exact ih hmet
  | first _ _ _ _ _ ihin ih => exact ih (ihin (listed_cons.mpr (.inr hmet)))

/-- Once nodes are expanded, their includes would be passed over. -/
theorem Expands.passed (h : Expands files stack met nodes met' out) :
    Passed files stack met' nodes := by
  induction h with
  | nil => exact fun _ hmem => nomatch hmem
  | node hn _ ih =>
    intro path hmem
    rcases List.mem_cons.mp hmem with heq | hmem
    · exact absurd heq.symm (hn path)
    · exact ih path hmem
  | again hfile hstack hmet hrest ih =>
    intro path hmem
    rcases List.mem_cons.mp hmem with heq | hmem
    · cases heq
      exact ⟨hfile, hstack, hrest.listed_mono hmet⟩
    · exact ih path hmem
  | first hc hstack _ hinner hrest _ ih =>
    intro path hmem
    rcases List.mem_cons.mp hmem with heq | hmem
    · cases heq
      refine ⟨by rw [hc]; rfl, hstack, hrest.listed_mono (hinner.listed_mono ?_)⟩
      exact listed_cons.mpr (.inl (same_iff.mpr rfl))
    · exact ih path hmem

theorem Passed.fails (hpassed : Passed files stack met nodes)
    (h : Fails files stack met rest fault) : Fails files stack met (nodes ++ rest) fault := by
  induction nodes with
  | nil => exact h
  | cons n nodes ih =>
    have hrest := ih fun path hmem => hpassed path (List.mem_cons_of_mem _ hmem)
    by_cases hn : Stays n
    · exact .node hn hrest
    · obtain ⟨path, rfl⟩ : ∃ path, n = .inclusion path := by simpa [Stays] using hn
      obtain ⟨hfile, hstack, hmet⟩ := hpassed path List.mem_cons_self
      exact .again hfile hstack hmet hrest

theorem Expands.fails (h : Expands files stack met nodes met' out)
    (hrest : Fails files stack met' rest fault) : Fails files stack met (nodes ++ rest) fault := by
  induction h with
  | nil => exact hrest
  | node hn _ ih => exact .node hn (ih hrest)
  | again hfile hstack hmet _ ih => exact .again hfile hstack hmet (ih hrest)
  | first hc hstack hmet hinner _ _ ih => exact .first hc hstack hmet hinner (ih hrest)

theorem Fails.append {n : Node} (h : Fails files stack met [n] fault) :
    Fails files stack met (n :: rest) fault := by
  cases h with
  | missing hc => exact .missing hc
  | cycle hfile hstack => exact .cycle hfile hstack
  | malformed hc hstack hmet => exact .malformed hc hstack hmet
  | inside hc hstack hmet h => exact .inside hc hstack hmet h
  | node _ h => cases h
  | again _ _ _ h => cases h
  | first _ _ _ _ h => cases h

/-- A fault arises at one include, and the nodes before it are expanded. -/
theorem Fails.split (h : Fails files stack met nodes fault) : ∃ before path after seen out,
    nodes = before ++ .inclusion path :: after ∧ Expands files stack met before seen out ∧
      Fails files stack seen [.inclusion path] fault := by
  induction h with
  | missing hc => exact ⟨[], _, _, _, _, rfl, .nil, .missing hc⟩
  | cycle hfile hstack => exact ⟨[], _, _, _, _, rfl, .nil, .cycle hfile hstack⟩
  | malformed hc hstack hmet => exact ⟨[], _, _, _, _, rfl, .nil, .malformed hc hstack hmet⟩
  | inside hc hstack hmet h => exact ⟨[], _, _, _, _, rfl, .nil, .inside hc hstack hmet h⟩
  | node hn _ ih =>
    obtain ⟨before, path, after, seen, out, rfl, hbefore, hpath⟩ := ih
    exact ⟨_ :: before, path, after, seen, _, rfl, .node hn hbefore, hpath⟩
  | again hfile hstack hmet _ ih =>
    obtain ⟨before, path, after, seen, out, rfl, hbefore, hpath⟩ := ih
    exact ⟨_ :: before, path, after, seen, _, rfl, .again hfile hstack hmet hbefore, hpath⟩
  | first hc hstack hmet hinner _ ih =>
    obtain ⟨before, path, after, seen, out, rfl, hbefore, hpath⟩ := ih
    exact ⟨_ :: before, path, after, seen, _, rfl, .first hc hstack hmet hinner hbefore, hpath⟩

/-! ## With the program on the stack and without -/

/-- The same files have been met, but the program has not. -/
structure Apart (root : Path) (met seen : List Path) : Prop where
  agree : ∀ path, ¬ root.same path = true → (Listed met path ↔ Listed seen path)
  unmet : ¬ Listed seen root

namespace Apart

variable {path : Path}

theorem start (root : Path) : Apart root [root] [] :=
  ⟨fun _ hpath => ⟨fun h => absurd (listed_singleton.mp h) hpath, fun h => (not_listed_nil h).elim⟩,
    not_listed_nil⟩

theorem cons (h : Apart root met seen) (hpath : ¬ root.same path = true) :
    Apart root (path :: met) (path :: seen) := by
  refine ⟨fun p hp => ?_, fun hlisted => ?_⟩
  · rw [listed_cons, listed_cons, h.agree p hp]
  · rcases listed_cons.mp hlisted with hsame | hlisted
    · exact hpath (same_iff.mpr (same_iff.mp hsame).symm)
    · exact h.unmet hlisted

/-- A file that is not on the stack is not the program. -/
theorem off_stack (h : Apart root met seen) (hpath : ¬ Listed (root :: stack) path) :
    ¬ root.same path = true ∧ ¬ Listed stack path ∧ (Listed met path ↔ Listed seen path) := by
  rw [listed_cons, not_or] at hpath
  exact ⟨hpath.1, hpath.2, h.agree path hpath.1⟩

end Apart

theorem Expands.unrooted (h : Expands files (root :: stack) met nodes met' out)
    (hapart : Apart root met seen) :
    ∃ seen', Expands files stack seen nodes seen' out ∧ Apart root met' seen' := by
  generalize hrooted : root :: stack = rooted at h
  induction h generalizing stack seen with
  | nil => exact ⟨seen, .nil, hapart⟩
  | node hn _ ih =>
    obtain ⟨seen', h, hapart'⟩ := ih hapart hrooted
    exact ⟨seen', .node hn h, hapart'⟩
  | again hfile hstack hmet _ ih =>
    subst hrooted
    obtain ⟨-, hstack, hagree⟩ := hapart.off_stack hstack
    obtain ⟨seen', h, hapart'⟩ := ih hapart rfl
    exact ⟨seen', .again hfile hstack (hagree.mp hmet) h, hapart'⟩
  | first hc hstack hmet _ _ ihin ih =>
    subst hrooted
    obtain ⟨hother, hstack, hagree⟩ := hapart.off_stack hstack
    obtain ⟨seen', hinner, hapart'⟩ := ihin (hapart.cons hother) rfl
    obtain ⟨seen'', hrest, hapart''⟩ := ih hapart' rfl
    exact ⟨seen'', .first hc hstack (mt hagree.mpr hmet) hinner hrest, hapart''⟩

/-- Expanded for the second time, the program stops at the include that led there. -/
theorem fails_second {before after : List Node} {path next : String}
    (hroot : content files root = some (.ok (before ++ .inclusion next :: after)))
    (hsame : root.same ⟨path⟩ = true) (hstack : ¬ Listed stack ⟨path⟩)
    (hapart : Apart root met seen) (hfile : (content files ⟨next⟩).isSome = true)
    (hnext : Listed (stack ++ [⟨path⟩]) ⟨next⟩)
    (hbefore : Passed files (root :: stack) met before) :
    ∃ chain, Fails files stack seen (.inclusion path :: rest) (.includeCycle chain) := by
  have hpassed : Passed files (stack ++ [⟨path⟩]) (⟨path⟩ :: seen) before := by
    intro p hp
    obtain ⟨hfile, hnot, hmet⟩ := hbefore p hp
    obtain ⟨hother, hnot, hagree⟩ := hapart.off_stack hnot
    refine ⟨hfile, fun hlisted => ?_, listed_cons.mpr (.inr (hagree.mp hmet))⟩
    rcases listed_append.mp hlisted with hlisted | hlisted
    · exact hnot hlisted
    · exact hother (same_iff.mpr ((same_iff.mp hsame).trans
        (same_iff.mp (listed_singleton.mp hlisted))))
  rw [content_congr hsame] at hroot
  exact ⟨_, .inside hroot hstack (fun h => hapart.unmet ((listed_congr hsame).mpr h))
    (hpassed.fails (.cycle hfile hnext))⟩

/-- While a file is expanded that the program includes, behind nodes that have been expanded. -/
theorem Fails.unrooted_within {before after : List Node} {next : String}
    (h : Fails files (root :: stack) met nodes fault)
    (hroot : content files root = some (.ok (before ++ .inclusion next :: after)))
    (hfile : (content files ⟨next⟩).isSome = true) (hnext : Listed stack ⟨next⟩)
    (hbefore : Passed files (root :: stack) met before) (hapart : Apart root met seen) :
    ∃ fault', Fails files stack seen nodes fault' ∧ fault'.unplaced = fault.unplaced := by
  generalize hrooted : root :: stack = rooted at h
  induction h generalizing stack seen with
  | missing hc => exact ⟨_, .missing hc, rfl⟩
  | @cycle _ _ path _ hpath hlisted =>
    subst hrooted
    by_cases hstack : Listed stack ⟨path⟩
    · exact ⟨_, .cycle hpath hstack, rfl⟩
    · obtain ⟨chain, h⟩ := fails_second hroot ((listed_cons.mp hlisted).resolve_right hstack) hstack
        hapart hfile (listed_append.mpr (.inl hnext)) hbefore
      exact ⟨_, h, rfl⟩
  | malformed hc hstack hmet =>
    subst hrooted
    obtain ⟨-, hstack, hagree⟩ := hapart.off_stack hstack
    exact ⟨_, .malformed hc hstack (mt hagree.mpr hmet), rfl⟩
  | @inside _ _ path _ _ _ hc hstack hmet _ ih =>
    subst hrooted
    have hbefore' := hbefore.enter hmet
    have hnext' : Listed (stack ++ [⟨path⟩]) ⟨next⟩ := listed_append.mpr (.inl hnext)
    obtain ⟨hother, hstack, hagree⟩ := hapart.off_stack hstack
    obtain ⟨fault', h, heq⟩ := ih hnext' hbefore' (hapart.cons hother) rfl
    exact ⟨fault', .inside hc hstack (mt hagree.mpr hmet) h, heq⟩
  | node hn _ ih =>
    obtain ⟨fault', h, heq⟩ := ih hnext hbefore hapart hrooted
    exact ⟨fault', .node hn h, heq⟩
  | again hpath hstack hmet _ ih =>
    subst hrooted
    obtain ⟨fault', h, heq⟩ := ih hnext hbefore hapart rfl
    obtain ⟨-, hstack, hagree⟩ := hapart.off_stack hstack
    exact ⟨fault', .again hpath hstack (hagree.mp hmet) h, heq⟩
  | first hc hstack hmet hinner _ ih =>
    subst hrooted
    have hbefore' := hbefore.mono fun _ h => hinner.listed_mono (listed_cons.mpr (.inr h))
    obtain ⟨hother, hstack, hagree⟩ := hapart.off_stack hstack
    obtain ⟨seen', hinner', hapart'⟩ := hinner.unrooted (hapart.cons hother)
    obtain ⟨fault', h, heq⟩ := ih hnext hbefore' hapart' rfl
    exact ⟨fault', .first hc hstack (mt hagree.mpr hmet) hinner' h, heq⟩

theorem Fails.unrooted (hroot : content files root = some (.ok nodes))
    (h : Fails files [root] [root] nodes fault) :
    ∃ fault', Fails files [] [] nodes fault' ∧ fault'.unplaced = fault.unplaced := by
  obtain ⟨before, path, after, met, out, rfl, hbefore, hpath⟩ := h.split
  obtain ⟨seen, hbefore', hapart⟩ := hbefore.unrooted (Apart.start root)
  suffices hlast : ∃ fault', Fails files [] seen [.inclusion path] fault' ∧
      fault'.unplaced = fault.unplaced by
    obtain ⟨fault', hlast, heq⟩ := hlast
    exact ⟨fault', hbefore'.fails hlast.append, heq⟩
  cases hpath with
  | missing hc => exact ⟨_, .missing hc, rfl⟩
  | cycle hfile hstack =>
    obtain ⟨chain, h⟩ := fails_second hroot (listed_singleton.mp hstack) not_listed_nil hapart
      hfile (listed_singleton.mpr (same_iff.mpr rfl)) hbefore.passed
    exact ⟨_, h, rfl⟩
  | malformed hc hstack hmet =>
    obtain ⟨-, hstack, hagree⟩ := hapart.off_stack hstack
    exact ⟨_, .malformed hc hstack (mt hagree.mpr hmet), rfl⟩
  | inside hc hstack hmet hinner =>
    have hpassed := hbefore.passed.enter hmet
    obtain ⟨hother, hstack, hagree⟩ := hapart.off_stack hstack
    obtain ⟨fault', h, heq⟩ := hinner.unrooted_within hroot (by rw [hc]; rfl)
      (listed_singleton.mpr (same_iff.mpr rfl)) hpassed (hapart.cons hother)
    exact ⟨fault', .inside hc hstack (mt hagree.mpr hmet) h, heq⟩
  | node _ h => cases h
  | again _ _ _ h => cases h
  | first _ _ _ _ h => cases h

/-! ## Programs that include themselves -/

/-- None of the files that have been met, and are not being expanded any more, leads to the
target. -/
def Clear (files : List (Path × String)) (stack met : List Path) (target : Path) : Prop :=
  ∀ path inner, Listed met path → ¬ Listed stack path → content files path = some (.ok inner) →
    ¬ Includes files inner target

/-- Nodes that lead to a file on the stack have no expansion. -/
theorem Expands.avoids (h : Expands files stack met nodes met' out) {target : Path}
    (htarget : Listed stack target) (hclear : Clear files stack met target) :
    ¬ Includes files nodes target ∧ Clear files stack met' target := by
  induction h with
  | nil => exact ⟨not_includes_nil, hclear⟩
  | node hn _ ih =>
    rw [includes_cons_iff hn]
    exact ih htarget hclear
  | again hfile hstack hmet _ ih =>
    obtain ⟨hrest, hclear'⟩ := ih htarget hclear
    refine ⟨fun h => ?_, hclear'⟩
    rcases includes_inclusion_iff.mp h with rfl | ⟨inner, hc, h⟩ | h
    · exact hstack htarget
    · exact hclear _ inner hmet hstack hc h
    · exact hrest h
  | @first stack met met' _ path _ inner _ _ hc hstack hmet _ _ ihin ih =>
    have hbefore : Clear files (stack ++ [⟨path⟩]) (⟨path⟩ :: met) target := by
      intro p nodes hlisted hnot
      rw [listed_append, listed_singleton, not_or] at hnot
      exact hclear p nodes ((listed_cons.mp hlisted).resolve_left hnot.2) hnot.1
    obtain ⟨hinner, hwithin⟩ := ihin (listed_append.mpr (.inl htarget)) hbefore
    have hafter : Clear files stack met' target := by
      intro p nodes hlisted hnot hp
      by_cases hsame : (⟨path⟩ : Path).same p = true
      · rw [← content_congr hsame, hc] at hp
        cases hp
        exact hinner
      · refine hwithin p nodes hlisted (fun h => ?_) hp
        exact (listed_append.mp h).elim hnot fun h => hsame (listed_singleton.mp h)
    obtain ⟨hrest, hclear'⟩ := ih htarget hafter
    refine ⟨fun h => ?_, hclear'⟩
    rcases includes_inclusion_iff.mp h with rfl | ⟨nodes, hnodes, h⟩ | h
    · exact hstack htarget
    · cases hc.symm.trans hnodes
      exact hinner h
    · exact hrest h

/-- With all the files there and in order, only a cycle can be wrong. -/
theorem Fails.cycle_of_readable (h : Fails files stack met nodes fault)
    (hreadable : Readable files nodes) : ∃ chain, fault = .includeCycle chain := by
  induction h with
  | missing hc =>
    obtain ⟨inner, hinner⟩ := hreadable _ (.direct List.mem_cons_self)
    cases hc.symm.trans hinner
  | cycle _ _ => exact ⟨_, rfl⟩
  | malformed hc _ _ =>
    obtain ⟨inner, hinner⟩ := hreadable _ (.direct List.mem_cons_self)
    cases hc.symm.trans hinner
  | inside hc _ _ _ ih => exact ih fun p hp => hreadable p (.through List.mem_cons_self hc hp)
  | node _ _ ih => exact ih fun p hp => hreadable p (hp.mono (List.subset_cons_self _ _))
  | again _ _ _ _ ih => exact ih fun p hp => hreadable p (hp.mono (List.subset_cons_self _ _))
  | first _ _ _ _ _ ih => exact ih fun p hp => hreadable p (hp.mono (List.subset_cons_self _ _))

theorem not_expands_of_includes (hincludes : Includes files nodes root) :
    ¬ Expands files [root] [root] nodes met' out := fun h =>
  (h.avoids (listed_singleton.mpr (same_iff.mpr rfl)) fun _ _ hmet hstack => absurd hmet hstack).1
    hincludes

end ThriftRpc.Compile
