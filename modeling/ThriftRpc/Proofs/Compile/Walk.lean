import ThriftRpc.Proofs.Compile.Expansion
import ThriftRpc.Proofs.Compile.Rooted
import ThriftRpc.Proofs.Compile.Search

/-!
# The way through the files

What an expansion meets, from left to right and into each file where it is met first: every node
with the file whose text holds it and, where the expansion breaks off, the cause with the file that
it lies in (`Walks`). There is one such way (`Walks.unique`).

An expansion that searches a file tree goes this way (`nodesWithin_walks`). It keeps no file beside
the nodes of the program itself, and a fault gets its file on the way out of the file it lies in; the
program's own file is left to whoever started the expansion. That the depth never runs out is part
of this: the files on the stack are different files of the tree.
-/

namespace ThriftRpc.Compile

open Files (Path Tree Location)
open Idl (Node)

namespace Fault

variable {p q : Path} {fault : Fault}

theorem within_within (p q : Path) (fault : Fault) : (fault.within p).within q = fault.within p := by
  cases fault <;> rfl

/-- What may lie in the file `p` when its includes are followed. -/
def Arises (p : Path) : Fault → Prop
  | malformed path _ => path = p
  | io _ | includeNotFound _ | includeCycle _ => True
  | _ => False

/-- The fault names this file: as the place of a syntax error, or right around its cause. -/
def Names (p : Path) (fault : Fault) : Prop :=
  (∃ e, fault = malformed p e) ∨ fault = inFile p fault.root

theorem Arises.root_eq (h : fault.Arises p) : fault.root = fault := by
  cases fault <;> first | rfl | cases h

theorem Arises.names (h : fault.Arises p) : (fault.within p).Names p := by
  cases fault with
  | malformed path e =>
    obtain rfl : path = p := h
    exact .inl ⟨e, rfl⟩
  | io | includeNotFound | includeCycle => exact .inr rfl
  | _ => cases h

theorem Arises.ne_duplicateType (h : fault.Arises p) (name : String) :
    fault ≠ duplicateType name := by
  rintro rfl
  cases h

end Fault

/-! ## Nodes and where they are -/

/-- A node, and the file whose text holds it. -/
structure Placed where
  home : Path
  node : Node

/-- The nodes of the program itself come from no included file. -/
def Located.placed (program : Path) (n : Located) : Placed := ⟨n.origin.getD program, n.node⟩

/-- What an include leads to. -/
inductive Visit where
  | broken (home : Path) (fault : Fault)
  /-- Nothing: the file has been met. -/
  | past (st : Expansion)
  | into (file : Path) (nodes : List Node) (st : Expansion)

/-- A file that is not found, or that is being expanded, is the fault of the include; a syntax error
is that of the included file. -/
def visit (home : Path) (stack : List Path) (st : Expansion) (path : String) : Visit :=
  match st.library.read path with
  | .error fault => .broken home fault
  | .ok (source, library) =>
    if Listed stack source.path then .broken home (.includeCycle (stack ++ [source.path]))
    else if Listed st.met source.path then .past ⟨library, st.met⟩
    else match Idl.parse source.text with
      | .error e => .broken source.path (.malformed source.path e)
      | .ok nodes => .into source.path nodes ⟨library, source.path :: st.met⟩

inductive Outcome where
  | whole (st : Expansion) (program : List Placed)
  | broken (home : Path) (fault : Fault)

def Outcome.after (before : List Placed) : Outcome → Outcome
  | whole st program => whole st (before ++ program)
  | broken home fault => broken home fault

@[simp]
theorem Outcome.after_nil (outcome : Outcome) : outcome.after [] = outcome := by
  cases outcome <;> rfl

/-- `Walks home stack st nodes outcome`: while the files of `stack` are being expanded, the last of
them `home`, the nodes of `home` lead from `st` to `outcome`. -/
inductive Walks : Path → List Path → Expansion → List Node → Outcome → Prop
  | nil {home : Path} {stack : List Path} {st : Expansion} : Walks home stack st [] (.whole st [])
  | node {home : Path} {stack : List Path} {st : Expansion} {n : Node} {rest : List Node}
      {outcome : Outcome} :
    Stays n → Walks home stack st rest outcome →
      Walks home stack st (n :: rest) (outcome.after [⟨home, n⟩])
  | stop {home file : Path} {stack : List Path} {st : Expansion} {path : String} {rest : List Node}
      {fault : Fault} :
    visit home stack st path = .broken file fault →
      Walks home stack st (.inclusion path :: rest) (.broken file fault)
  | past {home : Path} {stack : List Path} {st st' : Expansion} {path : String} {rest : List Node}
      {outcome : Outcome} :
    visit home stack st path = .past st' → Walks home stack st' rest outcome →
      Walks home stack st (.inclusion path :: rest) outcome
  | inside {home file place : Path} {stack : List Path} {st st' : Expansion} {path : String}
      {inner rest : List Node} {fault : Fault} :
    visit home stack st path = .into file inner st' →
      Walks file (stack ++ [file]) st' inner (.broken place fault) →
      Walks home stack st (.inclusion path :: rest) (.broken place fault)
  | first {home file : Path} {stack : List Path} {st st' st'' : Expansion} {path : String}
      {inner rest : List Node} {program : List Placed} {outcome : Outcome} :
    visit home stack st path = .into file inner st' →
      Walks file (stack ++ [file]) st' inner (.whole st'' program) →
      Walks home stack st'' rest outcome →
      Walks home stack st (.inclusion path :: rest) (outcome.after program)

variable {home file place : Path} {stack : List Path} {st st' : Expansion} {path : String}
  {nodes inner rest : List Node} {fault : Fault} {outcome outcome' : Outcome}

/-- What comes next is settled by the node and by where its include leads. -/
theorem Walks.unique (h : Walks home stack st nodes outcome)
    (h' : Walks home stack st nodes outcome') : outcome = outcome' := by
  induction h generalizing outcome' with
  | nil =>
    cases h' with
    | nil => rfl
  | node hn _ ih =>
    cases h' with
    | node _ h' => rw [ih h']
    | _ => exact absurd rfl (hn _)
  | stop hv =>
    cases h' with
    | node hn => exact absurd rfl (hn _)
    | stop hv' => cases hv.symm.trans hv'; rfl
    | past hv' | inside hv' | first hv' => cases hv.symm.trans hv'
  | past hv _ ih =>
    cases h' with
    | node hn => exact absurd rfl (hn _)
    | past hv' h' => cases hv.symm.trans hv'; exact ih h'
    | stop hv' | inside hv' | first hv' => cases hv.symm.trans hv'
  | inside hv _ ih =>
    cases h' with
    | node hn => exact absurd rfl (hn _)
    | inside hv' h' => cases hv.symm.trans hv'; exact ih h'
    | first hv' h' => cases hv.symm.trans hv'; cases ih h'
    | stop hv' | past hv' => cases hv.symm.trans hv'
  | first hv _ _ ihin ih =>
    cases h' with
    | node hn => exact absurd rfl (hn _)
    | inside hv' h' => cases hv.symm.trans hv'; cases ihin h'
    | first hv' hin' h' =>
      cases hv.symm.trans hv'
      cases ihin hin'
      rw [ih h']
    | stop hv' | past hv' => cases hv.symm.trans hv'

/-- The library searches this tree. -/
def Library.Over (tree : Tree) : Library → Prop
  | searched search => search.tree = tree
  | listed _ => False

section Search

variable {tree : Tree} {search : Search} {library library' : Library} {source : Source}

theorem mem_files_of_read {l : Location} {text : String} {p : Path}
    (h : tree.read p = .ok (l, text)) : l ∈ tree.files.map Prod.fst := by
  obtain ⟨-, hfind⟩ := Tree.read_eq_ok_iff.mp h
  rw [← Table.isSome_find?, hfind]
  rfl

theorem Search.read_ok {search' : Search} (h : search.read path = .ok (source, search')) :
    (∃ l ∈ search.tree.files.map Prod.fst, source.path = Location.path l) ∧
      search'.tree = search.tree := by
  obtain ⟨l, -, hfind, hpath, rfl⟩ := read_eq_ok_iff.mp h
  have hl : l ∈ search.tree.files.map Prod.fst := by
    rw [← Table.isSome_find?, hfind]
    rfl
  exact ⟨⟨l, hl, hpath⟩, search.tree_addDirectory _⟩

theorem Search.read_error (h : search.read path = .error fault) (p : Path) : fault.Arises p := by
  unfold Search.read at h
  split at h
  · split at h
    · cases h; trivial
    · cases h
  · cases h; trivial

/-- The path of a file that was read is that of its location in the tree. -/
theorem Library.Over.read_ok (hover : library.Over tree)
    (h : library.read path = .ok (source, library')) :
    (∃ l ∈ tree.files.map Prod.fst, source.path = Location.path l) ∧ library'.Over tree := by
  cases library with
  | listed files => cases hover
  | searched search =>
    obtain rfl : search.tree = tree := hover
    obtain ⟨⟨found, search'⟩, hread, heq⟩ := map_eq_ok h
    cases heq
    exact Search.read_ok hread

theorem Library.read_error (h : library.read path = .error fault) (p : Path) :
    fault.Arises p := by
  cases library with
  | listed files =>
    unfold Library.read at h
    dsimp only at h
    split at h
    · cases h
    · cases h; trivial
  | searched search =>
    have hmap : (search.read path).map (fun r => (r.1, Library.searched r.2)) = .error fault := h
    cases hread : search.read path with
    | ok r => rw [hread] at hmap; cases hmap
    | error fault' =>
      rw [hread] at hmap
      cases hmap
      exact Search.read_error hread p

end Search

/-! ## Single steps -/

open Expanding

/-- All that an include can lead to. -/
inductive Visits (home : Path) (stack : List Path) (st : Expansion) (path : String) : Visit → Prop
  | unread {fault : Fault} : st.library.read path = .error fault →
    Visits home stack st path (.broken home fault)
  | cycle {source : Source} {library : Library} : st.library.read path = .ok (source, library) →
    Listed stack source.path →
      Visits home stack st path (.broken home (.includeCycle (stack ++ [source.path])))
  | past {source : Source} {library : Library} : st.library.read path = .ok (source, library) →
    ¬ Listed stack source.path → Listed st.met source.path →
      Visits home stack st path (.past ⟨library, st.met⟩)
  | malformed {source : Source} {library : Library} {e : Idl.ParseError} :
    st.library.read path = .ok (source, library) → ¬ Listed stack source.path →
      ¬ Listed st.met source.path → Idl.parse source.text = .error e →
      Visits home stack st path (.broken source.path (.malformed source.path e))
  | into {source : Source} {library : Library} {nodes : List Node} :
    st.library.read path = .ok (source, library) → ¬ Listed stack source.path →
      ¬ Listed st.met source.path → Idl.parse source.text = .ok nodes →
      Visits home stack st path (.into source.path nodes ⟨library, source.path :: st.met⟩)

theorem visits (home : Path) (stack : List Path) (st : Expansion) (path : String) :
    Visits home stack st path (visit home stack st path) := by
  unfold visit
  split
  · next hread => exact .unread hread
  · next hread =>
    split
    · next hstack => exact .cycle hread hstack
    next hstack =>
      split
      · next hmet => exact .past hread hstack hmet
      next hmet =>
        split
        · next hparse => exact .malformed hread hstack hmet hparse
        · next hparse => exact .into hread hstack hmet hparse

theorem visit_unread (hread : st.library.read path = .error fault) :
    visit home stack st path = .broken home fault := by
  unfold visit
  rw [hread]

theorem visit_read {source : Source} {library : Library}
    (hread : st.library.read path = .ok (source, library)) (hstack : ¬ Listed stack source.path)
    (hmet : ¬ Listed st.met source.path) (hparse : Idl.parse source.text = .ok inner) :
    visit home stack st path = .into source.path inner ⟨library, source.path :: st.met⟩ := by
  unfold visit
  rw [hread]
  simp only [if_neg hstack, if_neg hmet, hparse]

theorem included_eq_visit (expand : Option Path → List Path → List Node → Expanding (List Located))
    (home : Path) (stack : List Path) (st : Expansion) (path : String) :
    included expand stack path st =
      match visit home stack st path with
      | .broken _ fault => .error fault
      | .past st' => .ok ([], st')
      | .into file inner st' =>
        (expand (some file) (stack ++ [file]) inner st').mapError (·.within file) := by
  have hvisits := visits home stack st path
  generalize visit home stack st path = v at hvisits
  cases hvisits with
  | unread hread => exact included_unread hread
  | cycle hread hstack => rw [included_read hread, if_pos hstack]
  | past hread hstack hmet => rw [included_read hread, if_neg hstack, if_pos hmet]
  | malformed hread hstack hmet hparse =>
    rw [included_read hread, if_neg hstack, if_neg hmet, hparse]
    rfl
  | into hread hstack hmet hparse =>
    rw [included_read hread, if_neg hstack, if_neg hmet, hparse]
    rfl

/-- A fault that an include breaks off with lies in the including file or is a syntax error. -/
theorem visit_broken (h : visit home stack st path = .broken place fault) :
    fault.Arises place ∧ fault.within home = fault.within place := by
  have hvisits := visits home stack st path
  rw [h] at hvisits
  cases hvisits with
  | unread hread => exact ⟨Library.read_error hread _, rfl⟩
  | cycle => exact ⟨trivial, rfl⟩
  | malformed => exact ⟨rfl, rfl⟩

section Tree

variable {tree : Tree}

theorem visit_past (hover : st.library.Over tree) (h : visit home stack st path = .past st') :
    st'.library.Over tree := by
  have hvisits := visits home stack st path
  rw [h] at hvisits
  cases hvisits with
  | past hread => exact (hover.read_ok hread).2

theorem visit_into (hover : st.library.Over tree)
    (h : visit home stack st path = .into file inner st') :
    (∃ l ∈ tree.files.map Prod.fst, file = Location.path l) ∧ ¬ Listed stack file ∧
      st'.library.Over tree := by
  have hvisits := visits home stack st path
  rw [h] at hvisits
  cases hvisits with
  | into hread hstack =>
    obtain ⟨hfile, hover'⟩ := hover.read_ok hread
    exact ⟨hfile, hstack, hover'⟩

theorem Walks.over_library (hover : st.library.Over tree)
    (h : Walks home stack st nodes outcome) :
    ∀ st' placed, outcome = .whole st' placed → st'.library.Over tree := by
  induction h with
  | nil =>
    rintro _ _ ⟨⟩
    exact hover
  | @node _ _ _ _ _ outcome _ _ ih =>
    cases outcome with
    | broken => rintro _ _ ⟨⟩
    | whole => rintro _ _ ⟨⟩; exact ih hover _ _ rfl
  | stop => rintro _ _ ⟨⟩
  | past hv _ ih => exact ih (visit_past hover hv)
  | inside => rintro _ _ ⟨⟩
  | @first _ _ _ _ _ _ _ _ _ _ outcome hv _ _ ihin ih =>
    have hover' := ihin (visit_into hover hv).2.2 _ _ rfl
    cases outcome with
    | broken => rintro _ _ ⟨⟩
    | whole => rintro _ _ ⟨⟩; exact ih hover' _ _ rfl

/-- The files of the stack are different files of the tree. -/
def Held (tree : Tree) (stack : List Path) : Prop :=
  ∃ ls : List Location, stack = ls.map Location.path ∧ ls.Nodup ∧ ls ⊆ tree.files.map Prod.fst

theorem Held.length_le (h : Held tree stack) : stack.length ≤ tree.files.length := by
  obtain ⟨ls, rfl, hdistinct, hfiles⟩ := h
  simpa using (List.subperm_of_subset hdistinct hfiles).length_le

theorem Held.push {l : Location} (h : Held tree stack) (hl : l ∈ tree.files.map Prod.fst)
    (hnew : ¬ Listed stack (Location.path l)) : Held tree (stack ++ [Location.path l]) := by
  obtain ⟨ls, rfl, hdistinct, hfiles⟩ := h
  have hother : l ∉ ls := fun hmem => hnew
    (List.any_eq_true.mpr ⟨_, List.mem_map_of_mem hmem, same_iff.mpr rfl⟩)
  refine ⟨ls ++ [l], by rw [List.map_append, List.map_singleton], ?_, ?_⟩
  · rw [← List.concat_eq_append]
    exact hdistinct.concat hother
  · exact List.append_subset.mpr ⟨hfiles, List.cons_subset.mpr ⟨hl, List.nil_subset _⟩⟩

end Tree

/-! ## Runs -/

/-- A fault lies in a file that is on its way. -/
theorem Walks.arises (h : Walks home stack st nodes (.broken place fault)) :
    fault.Arises place := by
  generalize hbroken : Outcome.broken place fault = outcome at h
  induction h with
  | nil => cases hbroken
  | stop hv => cases hbroken; exact (visit_broken hv).1
  | past _ _ ih => exact ih hbroken
  | inside _ _ ih => exact ih hbroken
  | @node _ _ _ _ _ outcome _ _ ih =>
    cases outcome with
    | whole => cases hbroken
    | broken => exact ih hbroken
  | @first _ _ _ _ _ _ _ _ _ _ outcome _ _ _ _ ih =>
    cases outcome with
    | whole => cases hbroken
    | broken => exact ih hbroken

/-- The run of an expansion and the way it goes: where the run fails, it is left to name the file it
began in. -/
inductive Follows (program home : Path) :
    Except Fault (List Located × Expansion) → Outcome → Prop
  | whole {located : List Located} {st : Expansion} :
    Follows program home (.ok (located, st)) (.whole st (located.map (Located.placed program)))
  | broken {found fault : Fault} {place : Path} : found.within home = fault.within place →
    Follows program home (.error found) (.broken place fault)

namespace Follows

variable {program : Path} {depth : Nat} {origin : Option Path} {n : Node}
  {run : Except Fault (List Located × Expansion)}

theorem ok {placed : List Placed} (h : Follows program home run (.whole st placed)) :
    ∃ located, run = .ok (located, st) ∧ placed = located.map (Located.placed program) := by
  cases h with
  | whole => exact ⟨_, rfl, rfl⟩

/-- On the way out of a file, a fault that lies further in has its file already. -/
theorem inside (h : Follows program file run (.broken place fault)) :
    Follows program home (run.mapError (·.within file)) (.broken place fault) := by
  cases h with
  | @broken found _ _ htold =>
    refine .broken ?_
    show (found.within file).within home = fault.within place
    rw [htold, Fault.within_within]

theorem head (h : Follows program home (part depth origin stack n st) (.broken place fault)) :
    Follows program home (nodesWithin (depth + 1) origin stack (n :: rest) st)
      (.broken place fault) := by
  generalize hn : part depth origin stack n st = run at h
  cases h with
  | broken htold =>
    rw [nodesWithin_head_error hn]
    exact .broken htold

theorem cons {a : List Located} (hn : part depth origin stack n st = .ok (a, st'))
    (h : Follows program home (nodesWithin (depth + 1) origin stack rest st') outcome) :
    Follows program home (nodesWithin (depth + 1) origin stack (n :: rest) st)
      (outcome.after (a.map (Located.placed program))) := by
  generalize hrest : nodesWithin (depth + 1) origin stack rest st' = run at h
  cases h with
  | whole =>
    rw [nodesWithin_cons_ok hn hrest, Outcome.after, ← List.map_append]
    exact .whole
  | broken htold =>
    rw [nodesWithin_tail_error hn hrest]
    exact .broken htold

end Follows

/-- Each level of includes holds one file more of the tree, so the last level is not reached. -/
theorem nodesWithin_walks {tree : Tree} {depth : Nat} (program : Path) (hheld : Held tree stack)
    (hdepth : tree.files.length < depth + stack.length) (hover : st.library.Over tree)
    (origin : Option Path) :
    ∃ outcome, Walks (origin.getD program) stack st nodes outcome ∧
      Follows program (origin.getD program) (nodesWithin depth origin stack nodes st) outcome := by
  induction depth generalizing stack st nodes origin with
  | zero =>
    have hle := hheld.length_le
    omega
  | succ depth ih =>
    induction nodes generalizing st with
    | nil => exact ⟨_, .nil, .whole⟩
    | cons n rest ihrest =>
      by_cases hn : Stays n
      · obtain ⟨outcome, hwalks, hfollows⟩ := ihrest hover
        exact ⟨_, .node hn hwalks, hfollows.cons (part_of_stays hn)⟩
      obtain ⟨path, rfl⟩ : ∃ path, n = .inclusion path := by simpa [Stays] using hn
      have hpart : part depth origin stack (.inclusion path) st = _ :=
        included_eq_visit (nodesWithin depth) (origin.getD program) stack st path
      cases hvisit : visit (origin.getD program) stack st path with
      | broken place fault =>
        rw [hvisit] at hpart
        refine ⟨_, .stop hvisit, .head ?_⟩
        rw [hpart]
        exact .broken (visit_broken hvisit).2
      | past st' =>
        rw [hvisit] at hpart
        obtain ⟨outcome, hwalks, hfollows⟩ := ihrest (visit_past hover hvisit)
        have hcons := hfollows.cons hpart
        rw [List.map_nil, Outcome.after_nil] at hcons
        exact ⟨_, .past hvisit hwalks, hcons⟩
      | into file inner st' =>
        obtain ⟨⟨l, hl, rfl⟩, hnew, hover'⟩ := visit_into hover hvisit
        have hdepth' : tree.files.length < depth + (stack ++ [Location.path l]).length := by
          rw [List.length_append, List.length_singleton]
          omega
        obtain ⟨outcome, (hinner : Walks (Location.path l) _ st' inner outcome), hfollows⟩ :=
          ih (hheld.push hl hnew) hdepth' hover' (some (Location.path l))
        rw [hvisit] at hpart
        cases outcome with
        | broken place fault =>
          refine ⟨_, .inside hvisit hinner, .head ?_⟩
          rw [hpart]
          exact hfollows.inside
        | whole st'' placed =>
          obtain ⟨located, hrun, rfl⟩ := hfollows.ok
          have hpart : part depth origin stack (.inclusion path) st = .ok (located, st'') := by
            rw [hpart]
            dsimp only
            rw [hrun]
            rfl
          obtain ⟨outcome, hwalks, hfollows⟩ := ihrest (hinner.over_library hover' _ _ rfl)
          exact ⟨_, .first hvisit hinner hwalks, hfollows.cons hpart⟩

end ThriftRpc.Compile
