import ThriftRpc.Compile.Basic
import ThriftRpc.Proofs.Compile.Splicing
import ThriftRpc.Proofs.Except

/-!
# Compiling programs with includes

A program that expands compiles to what its expansion, which has no includes, compiles to; otherwise
the fault is the first one of the expansion, and the bound on the depth is never reached
(`compile_spliced`). Faults are compared without the files they are said to lie in.
-/

namespace ThriftRpc.Compile

open Files (Path)
open Idl (Node)

variable {files : List (Path × String)} {stack met met' : List Path} {nodes out : List Node}

theorem Fault.root_within (path : Path) (fault : Fault) :
    (fault.within path).root = fault.root := by
  cases fault <;> rfl

namespace Expanding

variable {α β : Type} {st st' : Expansion}

theorem run_bind_ok {m : Expanding α} {k : α → Expanding β} {a : α} (h : m st = .ok (a, st')) :
    (m >>= k) st = k a st' := by
  show (m st >>= fun p => k p.1 p.2) = _
  rw [h]
  rfl

theorem run_bind_error {m : Expanding α} {k : α → Expanding β} {fault : Fault}
    (h : m st = .error fault) : (m >>= k) st = .error fault := by
  show (m st >>= fun p => k p.1 p.2) = _
  rw [h]
  rfl

/-- What one node of a file is replaced by. -/
def part (depth : Nat) (origin : Option Path) (stack : List Path) : Node → Expanding (List Located)
  | .inclusion path => included (nodesWithin depth) stack path
  | node => return [⟨origin, node⟩]

section Cons

variable {depth : Nat} {origin : Option Path} {n : Node} {rest : List Node} {a b : List Located}
  {st'' : Expansion} {fault : Fault}

theorem nodesWithin_cons : nodesWithin (depth + 1) origin stack (n :: rest) = (do
    let a ← part depth origin stack n
    let b ← nodesWithin (depth + 1) origin stack rest
    return a ++ b) := by
  show (do let parts ← (n :: rest).mapM (part depth origin stack); return parts.flatten) = (do
    let a ← part depth origin stack n
    let b ← (do let parts ← rest.mapM (part depth origin stack); return parts.flatten)
    return a ++ b)
  simp [List.mapM_cons]

theorem nodesWithin_cons_ok (hn : part depth origin stack n st = .ok (a, st'))
    (hrest : nodesWithin (depth + 1) origin stack rest st' = .ok (b, st'')) :
    nodesWithin (depth + 1) origin stack (n :: rest) st = .ok (a ++ b, st'') := by
  rw [nodesWithin_cons, run_bind_ok hn, run_bind_ok hrest]
  rfl

theorem nodesWithin_head_error (hn : part depth origin stack n st = .error fault) :
    nodesWithin (depth + 1) origin stack (n :: rest) st = .error fault := by
  rw [nodesWithin_cons, run_bind_error hn]

theorem nodesWithin_tail_error (hn : part depth origin stack n st = .ok (a, st'))
    (hrest : nodesWithin (depth + 1) origin stack rest st' = .error fault) :
    nodesWithin (depth + 1) origin stack (n :: rest) st = .error fault := by
  rw [nodesWithin_cons, run_bind_ok hn, run_bind_error hrest]

theorem part_of_stays (hn : Stays n) : part depth origin stack n st = .ok ([⟨origin, n⟩], st) := by
  cases n with
  | inclusion path => exact absurd rfl (hn path)
  | _ => rfl

end Cons

/-! ## Includes -/

section Included

variable {expand : Option Path → List Path → List Node → Expanding (List Located)} {path : String}

theorem read_eq (path : String) (st : Expansion) :
    read path st = (st.library.read path).map fun r => (r.1, { st with library := r.2 }) := by
  have hread : read path st = (StateT.lift (st.library.read path) >>= fun r : Source × Library =>
      (do set { st with library := r.2 }; return r.1 : Expanding Source)) st := rfl
  cases h : st.library.read path with
  | error fault =>
    rw [hread, h]
    rfl
  | ok r =>
    rw [hread, h]
    rfl

theorem included_unread {fault : Fault} (h : st.library.read path = .error fault) :
    included expand stack path st = .error fault := by
  refine run_bind_error ?_
  rw [read_eq, h]
  rfl

theorem included_read {source : Source} {library : Library}
    (h : st.library.read path = .ok (source, library)) :
    included expand stack path st =
      if Listed stack source.path then .error (.includeCycle (stack ++ [source.path]))
      else if Listed st.met source.path then .ok ([], ⟨library, st.met⟩)
      else (Idl.parse source.text).mapError (.malformed source.path) >>= fun inner =>
        (expand (some source.path) (stack ++ [source.path]) inner
          ⟨library, source.path :: st.met⟩).mapError (·.within source.path) := by
  have hread : read path st = .ok (source, ⟨library, st.met⟩) := by
    rw [read_eq, h]
    rfl
  unfold included
  rw [run_bind_ok hread]
  by_cases hstack : stack.any (·.same source.path) = true
  · simp only [Listed, hstack, if_true]
    rfl
  simp only [Listed, hstack, if_false, Bool.false_eq_true]
  rw [run_bind_ok (a := (⟨library, st.met⟩ : Expansion)) rfl]
  by_cases hmet : st.met.any (·.same source.path) = true
  · simp only [hmet, if_true]
    rfl
  simp only [hmet, if_false, Bool.false_eq_true]
  have hentered (st' : Expansion) :
      (set (⟨library, source.path :: st.met⟩ : Expansion) : Expanding Unit) st' =
        .ok ((), ⟨library, source.path :: st.met⟩) := rfl
  rw [run_bind_ok (hentered _)]
  cases hparse : Idl.parse source.text with
  | error e =>
    refine run_bind_error ?_
    simp only [parse, hparse]
    rfl
  | ok inner =>
    have hparsed : parse source ⟨library, source.path :: st.met⟩ =
        .ok (inner, ⟨library, source.path :: st.met⟩) := by
      simp only [parse, hparse]
      rfl
    rw [run_bind_ok hparsed]
    rfl

theorem included_missing (hc : content files ⟨path⟩ = none) :
    included expand stack path ⟨.listed files, met⟩ = .error (.includeNotFound path) := by
  have hfind : (files.find? fun f => f.1.same ⟨path⟩) = none := Option.map_eq_none_iff.mp hc
  refine included_unread ?_
  simp only [Library.read, hfind]

theorem included_found {parsed : Except Idl.ParseError (List Node)}
    (hc : content files ⟨path⟩ = some parsed) :
    included expand stack path ⟨.listed files, met⟩ =
      if Listed stack ⟨path⟩ then .error (.includeCycle (stack ++ [⟨path⟩]))
      else if Listed met ⟨path⟩ then .ok ([], ⟨.listed files, met⟩)
      else parsed.mapError (.malformed ⟨path⟩) >>= fun inner =>
        (expand (some ⟨path⟩) (stack ++ [⟨path⟩]) inner
          ⟨.listed files, ⟨path⟩ :: met⟩).mapError (·.within ⟨path⟩) := by
  obtain ⟨f, hf, rfl⟩ := Option.map_eq_some_iff.mp hc
  have hread : (⟨.listed files, met⟩ : Expansion).library.read path =
      .ok (⟨⟨path⟩, f.2⟩, .listed files) := by
    simp only [Library.read, hf]
  rw [included_read hread]

variable {depth : Nat} {origin : Option Path} {inner : List Node}

theorem part_again (hfile : (content files ⟨path⟩).isSome = true) (hstack : ¬ Listed stack ⟨path⟩)
    (hmet : Listed met ⟨path⟩) :
    part depth origin stack (.inclusion path) ⟨.listed files, met⟩ =
      .ok ([], ⟨.listed files, met⟩) := by
  obtain ⟨parsed, hc⟩ := Option.isSome_iff_exists.mp hfile
  exact (included_found hc).trans (by rw [if_neg hstack, if_pos hmet])

theorem part_cycle (hfile : (content files ⟨path⟩).isSome = true) (hstack : Listed stack ⟨path⟩) :
    part depth origin stack (.inclusion path) ⟨.listed files, met⟩ =
      .error (.includeCycle (stack ++ [⟨path⟩])) := by
  obtain ⟨parsed, hc⟩ := Option.isSome_iff_exists.mp hfile
  exact (included_found hc).trans (if_pos hstack)

theorem part_malformed {e : Idl.ParseError} (hc : content files ⟨path⟩ = some (.error e))
    (hstack : ¬ Listed stack ⟨path⟩) (hmet : ¬ Listed met ⟨path⟩) :
    part depth origin stack (.inclusion path) ⟨.listed files, met⟩ =
      .error (.malformed ⟨path⟩ e) :=
  (included_found hc).trans (by rw [if_neg hstack, if_neg hmet]; rfl)

/-- A file that is met first is expanded with a level less. -/
theorem part_first (hc : content files ⟨path⟩ = some (.ok inner)) (hstack : ¬ Listed stack ⟨path⟩)
    (hmet : ¬ Listed met ⟨path⟩) :
    part depth origin stack (.inclusion path) ⟨.listed files, met⟩ =
      (nodesWithin depth (some ⟨path⟩) (stack ++ [⟨path⟩]) inner
        ⟨.listed files, ⟨path⟩ :: met⟩).mapError (·.within ⟨path⟩) :=
  (included_found hc).trans (by rw [if_neg hstack, if_neg hmet]; rfl)

end Included

end Expanding

/-! ## Expansion -/

section Run

open Expanding

/-- With a level left for each file to be met, nodes are expanded as they should be. -/
theorem Expands.run (h : Expands files stack met nodes met' out) (depth : Nat)
    (hdepth : (unmet files met).length ≤ depth) (origin : Option Path) :
    ∃ located, nodesWithin (depth + 1) origin stack nodes ⟨.listed files, met⟩ =
      .ok (located, ⟨.listed files, met'⟩) ∧ located.map (·.node) = out := by
  induction h generalizing depth origin with
  | nil => exact ⟨[], rfl, rfl⟩
  | node hn _ ih =>
    obtain ⟨located, hrun, rfl⟩ := ih depth hdepth origin
    exact ⟨_, nodesWithin_cons_ok (part_of_stays hn) hrun, rfl⟩
  | again hfile hstack hmet _ ih =>
    obtain ⟨located, hrun, rfl⟩ := ih depth hdepth origin
    exact ⟨_, nodesWithin_cons_ok (part_again hfile hstack hmet) hrun, rfl⟩
  | @first stack met met' _ path _ _ _ _ hc hstack hmet hinner _ ihin ih =>
    have hless := length_unmet_cons_lt (by rw [hc]; rfl) hmet
    have hafter := hinner.length_unmet_le
    obtain ⟨located, hrest, rfl⟩ := ih depth (by omega) origin
    obtain ⟨k, rfl⟩ := Nat.exists_eq_add_one_of_ne_zero (n := depth) (by omega)
    obtain ⟨inside, hrun, rfl⟩ := ihin k (by omega) (some ⟨path⟩)
    have hpart : part (k + 1) origin stack (.inclusion path) ⟨.listed files, met⟩ =
        .ok (inside, ⟨.listed files, met'⟩) := by
      rw [part_first hc hstack hmet, hrun]
      rfl
    exact ⟨inside ++ located, nodesWithin_cons_ok hpart hrest, List.map_append⟩

/-- With so many levels the bound on the depth is no fault of its own. -/
theorem Fails.run {fault : Fault} (h : Fails files stack met nodes fault) (depth : Nat)
    (hdepth : (unmet files met).length ≤ depth) (origin : Option Path) :
    ∃ found, nodesWithin (depth + 1) origin stack nodes ⟨.listed files, met⟩ = .error found ∧
      found.root = fault := by
  induction h generalizing depth origin with
  | missing hc => exact ⟨.includeNotFound _, nodesWithin_head_error (included_missing hc), rfl⟩
  | cycle hfile hstack =>
    exact ⟨.includeCycle _, nodesWithin_head_error (part_cycle hfile hstack), rfl⟩
  | malformed hc hstack hmet =>
    exact ⟨.malformed _ _, nodesWithin_head_error (part_malformed hc hstack hmet), rfl⟩
  | @inside _ _ path _ _ _ hc hstack hmet _ ih =>
    have hless := length_unmet_cons_lt (by rw [hc]; rfl) hmet
    obtain ⟨k, rfl⟩ := Nat.exists_eq_add_one_of_ne_zero (n := depth) (by omega)
    obtain ⟨found, hrun, rfl⟩ := ih k (by omega) (some ⟨path⟩)
    refine ⟨_, nodesWithin_head_error ?_, found.root_within ⟨path⟩⟩
    rw [part_first hc hstack hmet, hrun]
    rfl
  | node hn _ ih =>
    obtain ⟨found, hrun, rfl⟩ := ih depth hdepth origin
    exact ⟨found, nodesWithin_tail_error (part_of_stays hn) hrun, rfl⟩
  | again hfile hstack hmet _ ih =>
    obtain ⟨found, hrun, rfl⟩ := ih depth hdepth origin
    exact ⟨found, nodesWithin_tail_error (part_again hfile hstack hmet) hrun, rfl⟩
  | @first stack met met' path _ _ _ _ hc hstack hmet hinner _ ih =>
    have hless := length_unmet_cons_lt (by rw [hc]; rfl) hmet
    have hafter := hinner.length_unmet_le
    obtain ⟨found, hrest, rfl⟩ := ih depth (by omega) origin
    obtain ⟨k, rfl⟩ := Nat.exists_eq_add_one_of_ne_zero (n := depth) (by omega)
    obtain ⟨inside, hrun, -⟩ := hinner.run k (by omega) (some ⟨path⟩)
    have hpart : part (k + 1) origin stack (.inclusion path) ⟨.listed files, met⟩ =
        .ok (inside, ⟨.listed files, met'⟩) := by
      rw [part_first hc hstack hmet, hrun]
      rfl
    exact ⟨found, nodesWithin_tail_error hpart hrest, rfl⟩

theorem expand_run (library : Library) (root : Option Path) (nodes : List Node) :
    expand library root nodes =
      Prod.fst <$> nodesWithin (library.size + 1) none root.toList nodes
        ⟨library, root.toList⟩ := by
  show (nodesWithin _ none root.toList nodes ⟨library, root.toList⟩ >>=
    fun r => pure r.1) = _
  rw [map_eq_pure_bind]

theorem expand_eq (files : List (Path × String)) (nodes : List Node) :
    expand (.listed files) none nodes =
      Prod.fst <$> nodesWithin (files.length + 1) none [] nodes ⟨.listed files, []⟩ :=
  expand_run (.listed files) none nodes

theorem Expands.expand (h : Expands files [] [] nodes met' out) :
    ∃ located, Compile.expand (.listed files) none nodes = .ok located ∧
      located.map (·.node) = out := by
  obtain ⟨located, hrun, hout⟩ := h.run files.length (List.length_filter_le _ files) none
  exact ⟨located, by rw [expand_eq, hrun]; rfl, hout⟩

theorem Fails.expand {fault : Fault} (h : Fails files [] [] nodes fault) :
    ∃ found, Compile.expand (.listed files) none nodes = .error found ∧ found.root = fault := by
  obtain ⟨found, hrun, hroot⟩ := h.run files.length (List.length_filter_le _ files) none
  exact ⟨found, by rw [expand_eq, hrun]; rfl, hroot⟩

end Run

/-! ## Building -/

/-- The files that nodes come from only show in where a fault is said to lie. -/
theorem foldlM_root (language : String) (located : List Located) (s : Schema) :
    (located.foldlM (fun s n => (addNode language s n.node).mapError fun f =>
      match n.origin with
      | some path => f.within path
      | none => f) s).mapError Fault.root =
    ((located.map (·.node)).foldlM (addNode language) s).mapError Fault.root := by
  induction located generalizing s with
  | nil => rfl
  | cons n located ih =>
    rw [List.map_cons, List.foldlM_cons, List.foldlM_cons]
    cases hadd : addNode language s n.node with
    | ok t => exact ih t
    | error fault =>
      show Except.error (Fault.root _) = Except.error fault.root
      cases n.origin with
      | none => rfl
      | some path => exact congrArg Except.error (fault.root_within path)

theorem build_root (language : String) {located located' : List Located}
    (h : located.map (·.node) = located'.map (·.node)) :
    (build language located).mapError Fault.root =
      (build language located').mapError Fault.root := by
  have hnames : located.filterMap (·.node.definedName?) =
      located'.filterMap (·.node.definedName?) := by
    have hmap := congrArg (List.filterMap Node.definedName?) h
    rwa [List.filterMap_map, List.filterMap_map] at hmap
  unfold build
  rw [hnames]
  cases checkDistinct [] (located'.filterMap (·.node.definedName?)) with
  | error fault => rfl
  | ok _ =>
    exact (foldlM_root language located {}).trans (h ▸ (foldlM_root language located' {}).symm)

/-- A program compiles to what its expansion compiles to, or the fault is the first one of the
expansion. -/
theorem compile_spliced (config : Config) (files : List (Path × String)) (nodes : List Node) :
    (Readable files nodes → Acyclic files nodes → ∃ met out, Expands files [] [] nodes met out) ∧
    (∀ met out, Expands files [] [] nodes met out → (∀ n ∈ out, Stays n) ∧
      (compile config (.listed files) none nodes).mapError Fault.root =
        (compile config (.listed files) none out).mapError Fault.root) ∧
    (∀ fault, Fails files [] [] nodes fault →
      (compile config (.listed files) none nodes).mapError Fault.root = .error fault) ∧
    ((∃ met out, Expands files [] [] nodes met out) ∨ ∃ fault, Fails files [] [] nodes fault) := by
  refine ⟨exists_expands, fun met out h => ⟨h.stays, ?_⟩, fun fault h => ?_,
    expands_or_fails files [] [] nodes⟩
  · obtain ⟨located, hexpand, hout⟩ := h.expand
    have hstays : Expands files [] [] out [] out := expands_of_stays h.stays
    obtain ⟨located', hexpand', hout'⟩ := hstays.expand
    unfold compile
    rw [hexpand, hexpand']
    exact build_root config.language (hout.trans hout'.symm)
  · obtain ⟨found, hexpand, rfl⟩ := h.expand
    unfold compile
    rw [hexpand]
    rfl

/-! A file that includes another, and two that include each other. -/

theorem parse_of_include {text path name : String} (h : (match Idl.parse text with
      | .ok [.inclusion p, .senum n []] => p == path && n == name
      | _ => false) = true) : Idl.parse text = .ok [.inclusion path, .senum name []] := by
  split at h
  · next heq =>
    rw [Bool.and_eq_true, beq_iff_eq, beq_iff_eq] at h
    rw [heq, h.1, h.2]
  · cases h

theorem parse_of_senum {text name : String} (h : (match Idl.parse text with
      | .ok [.senum n []] => n == name
      | _ => false) = true) : Idl.parse text = .ok [.senum name []] := by
  split at h
  · next heq =>
    rw [beq_iff_eq] at h
    rw [heq, h]
  · cases h

/-- `mid` includes `base`; `left` and `right` include each other. -/
def sampleFiles : List (Path × String) :=
  [(⟨"mid"⟩, "include 'base' senum Mid {}"), (⟨"base"⟩, "senum Base {}"),
    (⟨"left"⟩, "include 'right' senum Left {}"), (⟨"right"⟩, "include 'left' senum Right {}")]

/-- The second include is of the same file as the first. -/
def sampleNodes : List Node := [.inclusion "mid", .inclusion "mid/", .senum "Root" []]

theorem content_mid : content sampleFiles ⟨"mid"⟩ =
    some (.ok [.inclusion "base", .senum "Mid" []]) :=
  congrArg some (parse_of_include (by decide +kernel))

theorem content_mid_slash : content sampleFiles ⟨"mid/"⟩ =
    some (.ok [.inclusion "base", .senum "Mid" []]) :=
  congrArg some (parse_of_include (by decide +kernel))

theorem content_base : content sampleFiles ⟨"base"⟩ = some (.ok [.senum "Base" []]) :=
  congrArg some (parse_of_senum (by decide +kernel))

theorem content_left : content sampleFiles ⟨"left"⟩ =
    some (.ok [.inclusion "right", .senum "Left" []]) :=
  congrArg some (parse_of_include (by decide +kernel))

theorem content_right : content sampleFiles ⟨"right"⟩ =
    some (.ok [.inclusion "left", .senum "Right" []]) :=
  congrArg some (parse_of_include (by decide +kernel))

theorem stays_senum (name : String) : Stays (.senum name []) := fun _ h => nomatch h

theorem includes_mid {target : Path} :
    Includes sampleFiles [.inclusion "base", .senum "Mid" []] target ↔ target = ⟨"base"⟩ := by
  simp [includes_inclusion_iff, includes_cons_iff (stays_senum _), content_base, not_includes_nil]

theorem includes_sample {target : Path} : Includes sampleFiles sampleNodes target ↔
    target = ⟨"mid"⟩ ∨ target = ⟨"mid/"⟩ ∨ target = ⟨"base"⟩ := by
  simp [sampleNodes, includes_inclusion_iff, includes_cons_iff (stays_senum _), content_base,
    content_mid, content_mid_slash, not_includes_nil]
  tauto

theorem sample_readable : Readable sampleFiles sampleNodes := by
  intro path hpath
  rcases includes_sample.mp hpath with rfl | rfl | rfl
  · exact ⟨_, content_mid⟩
  · exact ⟨_, content_mid_slash⟩
  · exact ⟨_, content_base⟩

theorem sample_acyclic : Acyclic sampleFiles sampleNodes := by
  intro path inner hpath hc target ht
  rcases includes_sample.mp hpath with rfl | rfl | rfl
  · cases content_mid.symm.trans hc
    rw [includes_mid.mp ht]
    decide +kernel
  · cases content_mid_slash.symm.trans hc
    rw [includes_mid.mp ht]
    decide +kernel
  · cases content_base.symm.trans hc
    exact absurd ((includes_cons_iff (stays_senum _)).mp ht) not_includes_nil

theorem sample_expands : Expands sampleFiles [] [] sampleNodes [⟨"base"⟩, ⟨"mid"⟩]
    [.senum "Base" [], .senum "Mid" [], .senum "Root" []] := by
  have hbase : Expands sampleFiles [⟨"mid"⟩, ⟨"base"⟩] [⟨"base"⟩, ⟨"mid"⟩] [.senum "Base" []]
      [⟨"base"⟩, ⟨"mid"⟩] [.senum "Base" []] := .node (stays_senum _) .nil
  have hmid : Expands sampleFiles [⟨"mid"⟩] [⟨"mid"⟩] [.inclusion "base", .senum "Mid" []]
      [⟨"base"⟩, ⟨"mid"⟩] ([.senum "Base" []] ++ [.senum "Mid" []]) :=
    .first content_base (by decide +kernel) (by decide +kernel) hbase (.node (stays_senum _) .nil)
  have hagain : Expands sampleFiles [] [⟨"base"⟩, ⟨"mid"⟩] [.inclusion "mid/", .senum "Root" []]
      [⟨"base"⟩, ⟨"mid"⟩] [.senum "Root" []] :=
    .again (by decide +kernel) (by decide +kernel) (by decide +kernel) (.node (stays_senum _) .nil)
  exact .first content_mid (by decide +kernel) (by decide +kernel) hmid hagain

theorem sample_fails : Fails sampleFiles [] [] [.inclusion "left"]
    (.includeCycle [⟨"left"⟩, ⟨"right"⟩, ⟨"left"⟩]) :=
  .inside content_left (by decide +kernel) (by decide +kernel)
    (.inside content_right (by decide +kernel) (by decide +kernel)
      (.cycle (by decide +kernel) (by decide +kernel)))

theorem compile_spliced_sample :
    (Readable sampleFiles sampleNodes ∧ Acyclic sampleFiles sampleNodes ∧
      ∃ met out, Expands sampleFiles [] [] sampleNodes met out) ∧
    (compile {} (.listed sampleFiles) none sampleNodes).mapError Fault.root =
      (compile {} (.listed sampleFiles) none
        [.senum "Base" [], .senum "Mid" [], .senum "Root" []]).mapError Fault.root ∧
    (compile {} (.listed sampleFiles) none [.inclusion "left"]).mapError Fault.root =
      .error (.includeCycle [⟨"left"⟩, ⟨"right"⟩, ⟨"left"⟩]) :=
  ⟨⟨sample_readable, sample_acyclic,
      (compile_spliced {} sampleFiles sampleNodes).1 sample_readable sample_acyclic⟩,
    ((compile_spliced {} sampleFiles sampleNodes).2.1 _ _ sample_expands).2,
    (compile_spliced {} sampleFiles [.inclusion "left"]).2.2.1 _ sample_fails⟩

end ThriftRpc.Compile
