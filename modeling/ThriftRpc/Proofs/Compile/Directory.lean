import ThriftRpc.Proofs.Compile.Expansion
import ThriftRpc.Proofs.Compile.Rooted
import ThriftRpc.Proofs.Files.Directory

/-!
# Compiling in one directory

The files of the working directory compile as they do from a list of the same texts under their
names (`compileFile_eq_compileText`). A file that is searched for is known by its path from the
root, a listed one by its name; under this renaming the two expansions go side by side
(`nodesWithin_beside`), and that only the former begins with the program on the stack makes no
difference (`Fails.unrooted`).
-/

namespace ThriftRpc.Compile

open Files (Path Tree Location Plain)
open Idl (Node)

/-- The texts, each under its name. -/
def named (texts : Table String String) : List (Path × String) := texts.map fun f => (⟨f.1⟩, f.2)

/-- The search for plain names: the working directory under both of its paths. -/
def Search.here (tree : Tree) : Search := ⟨tree, [⟨"."⟩, Location.path tree.working]⟩

/-- The path from the root to a file of the working directory. -/
def pathIn (tree : Tree) (name : String) : Path := Location.path (tree.working ++ [name])

/-- All that the texts include is plain names. -/
def PlainIncludes (texts : Table String String) : Prop :=
  ∀ f ∈ texts, ∀ nodes, Idl.parse f.2 = .ok nodes → ∀ path, .inclusion path ∈ nodes → Plain path

variable {tree : Tree} {texts : Table String String} {name : String}

theorem find?_named (htexts : ∀ n ∈ texts.map Prod.fst, Plain n) (hname : Plain name) :
    (named texts).find? (fun f => f.1.same ⟨name⟩) =
      (Table.find? name texts).map fun text => (⟨name⟩, text) := by
  induction texts with
  | nil => rfl
  | cons f texts ih =>
    obtain ⟨n, text⟩ := f
    rw [List.map_cons, List.forall_mem_cons] at htexts
    have hcons : named ((n, text) :: texts) = (⟨n⟩, text) :: named texts := rfl
    have hsame := Path.same_iff_of_plain htexts.1 hname
    by_cases hn : n = name
    · subst hn
      simp only [hcons, List.find?_cons, hsame.mpr, Table.find?, if_true, Option.map_some]
    · have hother : (⟨n⟩ : Path).same ⟨name⟩ = false :=
        Bool.eq_false_iff.mpr fun h => hn (hsame.mp h)
      simp only [hcons, List.find?_cons, hother, Table.find?, if_neg hn, ih htexts.2]

theorem content_named (htexts : ∀ n ∈ texts.map Prod.fst, Plain n) (hname : Plain name) :
    content (named texts) ⟨name⟩ = (Table.find? name texts).map Idl.parse := by
  unfold content
  rw [find?_named htexts hname, Option.map_map]
  rfl

/-! ## The search -/

namespace Search

theorem addDirectory_here (hworking : ∀ n ∈ tree.working, Plain n) :
    (here tree).addDirectory (Location.path tree.working) = here tree := by
  have htext : (Location.path tree.working).text ≠ "" := by simp [Location.path]
  have hlisted : (here tree).directories.any (·.same (Location.path tree.working)) = true := by
    refine List.any_eq_true.mpr ⟨_, List.mem_cons_of_mem _ List.mem_cons_self, ?_⟩
    exact (Path.same_path_iff hworking hworking).mpr rfl
  unfold addDirectory
  rw [if_neg htext, if_pos hlisted]

theorem addDirectoryOf_here (hworking : ∀ n ∈ tree.working, Plain n) :
    (here tree).addDirectoryOf (tree.working ++ [name]) = here tree := by
  unfold addDirectoryOf
  rw [List.dropLast_concat, addDirectory_here hworking]

/-- With no directories given, the search of a file of the working directory begins there. -/
theorem ofDirectories_here (hworking : ∀ n ∈ tree.working, Plain n) :
    (ofDirectories tree []).addDirectoryOf (tree.working ++ [name]) = here tree := by
  have hbegin : ofDirectories tree [] = ⟨tree, [⟨"."⟩]⟩ := rfl
  have htext : (Location.path tree.working).text ≠ "" := by simp [Location.path]
  have hother : (⟨"."⟩ : Path).same (Location.path tree.working) = false := by
    have hdot : (⟨"."⟩ : Path).components = [.here] := by decide +kernel
    rw [← Bool.not_eq_true, same_iff, Path.components_path hworking, hdot]
    rintro ⟨⟩
  unfold addDirectoryOf addDirectory
  rw [List.dropLast_concat, hbegin, if_neg htext]
  simp only [List.any_cons, List.any_nil, hother, Bool.or_self, Bool.false_eq_true, if_false]
  rfl

theorem locate?_here (h : tree.Holds texts) (hname : Plain name) :
    (here tree).locate? ⟨name⟩ = (Table.find? name texts).map fun _ => ⟨"./" ++ name⟩ := by
  have hcandidates : (here tree).candidates ⟨name⟩ =
      [⟨"./" ++ name⟩, Location.path (tree.working ++ [name])] := by
    unfold candidates here
    rw [Path.isAbsolute_of_plain hname]
    simp only [Bool.false_eq_true, if_false, List.map_cons, List.map_nil, Path.join_here hname,
      Path.join_path h.plain hname]
  unfold locate?
  rw [hcandidates]
  show [_, _].find? tree.isFile = _
  cases hfind : Table.find? name texts with
  | some text =>
    rw [List.find?_cons_of_pos (by rw [h.isFile_here hname, hfind]; rfl)]
    rfl
  | none =>
    have hfar : ¬ tree.isFile (Location.path (tree.working ++ [name])) = true := by
      intro hfile
      have hsome := Tree.isFile_path (by simp)
        (List.forall_mem_append.mpr ⟨h.plain, List.forall_mem_singleton.mpr hname⟩) hfile
      rw [h.files, hfind] at hsome
      cases hsome
    rw [List.find?_cons_of_neg (by rw [h.isFile_here hname, hfind]; decide),
      List.find?_cons_of_neg hfar]
    rfl

theorem read_here (h : tree.Holds texts) (hname : Plain name) :
    (here tree).read name = match Table.find? name texts with
      | some text => .ok (⟨pathIn tree name, text⟩, here tree)
      | none => .error (.includeNotFound name) := by
  unfold Search.read
  rw [locate?_here h hname]
  cases hfind : Table.find? name texts with
  | none => rfl
  | some text =>
    have hread : (here tree).tree.read ⟨"./" ++ name⟩ = .ok (tree.working ++ [name], text) :=
      Tree.Holds.read_here h hfind
    simp only [Option.map_some, hread, addDirectoryOf_here h.plain]
    rfl

end Search

theorem read_searched (h : tree.Holds texts) (hname : Plain name) :
    (Library.searched (.here tree)).read name = match Table.find? name texts with
      | some text => .ok (⟨pathIn tree name, text⟩, .searched (.here tree))
      | none => .error (.includeNotFound name) := by
  simp only [Library.read, Search.read_here h hname]
  cases Table.find? name texts with
  | none => rfl
  | some text => rfl

theorem read_named (htexts : ∀ n ∈ texts.map Prod.fst, Plain n) (hname : Plain name) :
    (Library.listed (named texts)).read name = match Table.find? name texts with
      | some text => .ok (⟨⟨name⟩, text⟩, .listed (named texts))
      | none => .error (.includeNotFound name) := by
  unfold Library.read
  simp only [find?_named htexts hname]
  cases Table.find? name texts with
  | none => rfl
  | some text => rfl

/-! ## Side by side -/

/-- An expansion that searches the working directory, once the files of these names have been
met. -/
def searching (tree : Tree) (met : List String) : Expansion :=
  ⟨.searched (.here tree), met.map (pathIn tree)⟩

/-- An expansion with the texts at hand, once those of these names have been met. -/
def holding (texts : Table String String) (met : List String) : Expansion :=
  ⟨.listed (named texts), met.map Files.Path.mk⟩

/-- Both go on with the same nodes and the same files met, or fail for the same reason. -/
inductive Beside (tree : Tree) (texts : Table String String) :
    Except Fault (List Located × Expansion) → Except Fault (List Located × Expansion) → Prop
  | ok {found given : List Located} {met : List String} :
    found.map (·.node) = given.map (·.node) → (∀ n ∈ met, Plain n) →
      Beside tree texts (.ok (found, searching tree met)) (.ok (given, holding texts met))
  | error {fault fault' : Fault} : fault.root.unplaced = fault'.root.unplaced →
    Beside tree texts (.error fault) (.error fault')

theorem Beside.within {p q : Path} {r r' : Except Fault (List Located × Expansion)}
    (h : Beside tree texts r r') :
    Beside tree texts (r.mapError (·.within p)) (r'.mapError (·.within q)) := by
  cases h with
  | ok hnodes hmet => exact .ok hnodes hmet
  | error hfault =>
    refine .error ?_
    rwa [Fault.root_within, Fault.root_within]

section Names

variable {names : List String}

theorem listed_pathIn (h : tree.Holds texts) (hnames : ∀ n ∈ names, Plain n) (hname : Plain name) :
    Listed (names.map (pathIn tree)) (pathIn tree name) ↔ name ∈ names := by
  have hplain {n : String} (hn : Plain n) : ∀ m ∈ tree.working ++ [n], Plain m :=
    List.forall_mem_append.mpr ⟨h.plain, List.forall_mem_singleton.mpr hn⟩
  have hsame : ∀ n ∈ names, (pathIn tree n).same (pathIn tree name) = true ↔ n = name := by
    intro n hn
    unfold pathIn
    rw [Path.same_path_iff (hplain (hnames n hn)) (hplain hname)]
    simp
  unfold Listed
  simp only [List.any_map, List.any_eq_true, Function.comp_apply]
  exact ⟨fun ⟨n, hn, heq⟩ => (hsame n hn).mp heq ▸ hn,
    fun hn => ⟨name, hn, (hsame name hn).mpr rfl⟩⟩

theorem listed_mk (hnames : ∀ n ∈ names, Plain n) (hname : Plain name) :
    Listed (names.map Files.Path.mk) ⟨name⟩ ↔ name ∈ names := by
  unfold Listed
  simp only [List.any_map, List.any_eq_true, Function.comp_apply]
  exact ⟨fun ⟨n, hn, heq⟩ => (Path.same_iff_of_plain (hnames n hn) hname).mp heq ▸ hn,
    fun hn => ⟨name, hn, (Path.same_iff_of_plain hname hname).mpr rfl⟩⟩

end Names

open Expanding

section Run

variable {depth : Nat} {origin origin' : Option Path} {stack met : List String} {nodes : List Node}

/-- The expansions of the nodes of any file, in any state. -/
def BesideWithin (tree : Tree) (texts : Table String String) (depth : Nat) : Prop :=
  ∀ (origin origin' : Option Path) (stack met : List String) (nodes : List Node),
    (∀ n ∈ stack, Plain n) → (∀ n ∈ met, Plain n) → (∀ path, .inclusion path ∈ nodes → Plain path) →
    Beside tree texts
      (nodesWithin depth origin (stack.map (pathIn tree)) nodes (searching tree met))
      (nodesWithin depth origin' (stack.map Files.Path.mk) nodes (holding texts met))

theorem included_beside (h : tree.Holds texts) (hincludes : PlainIncludes texts)
    (hwithin : BesideWithin tree texts depth) (hstack : ∀ n ∈ stack, Plain n)
    (hmet : ∀ n ∈ met, Plain n) (hname : Plain name) :
    Beside tree texts
      (included (nodesWithin depth) (stack.map (pathIn tree)) name (searching tree met))
      (included (nodesWithin depth) (stack.map Files.Path.mk) name (holding texts met)) := by
  have hplain : ∀ n ∈ texts.map Prod.fst, Plain n := fun n hn => (h.named n hn).1
  have hfound := read_searched h hname
  have hgiven := read_named hplain hname
  cases hfind : Table.find? name texts with
  | none =>
    rw [hfind] at hfound hgiven
    rw [included_unread hfound, included_unread hgiven]
    exact .error rfl
  | some text =>
    rw [hfind] at hfound hgiven
    rw [included_read hfound, included_read hgiven]
    by_cases hcycle : name ∈ stack
    · rw [if_pos ((listed_pathIn h hstack hname).mpr hcycle),
        if_pos ((listed_mk hstack hname).mpr hcycle)]
      exact .error rfl
    rw [if_neg (mt (listed_pathIn h hstack hname).mp hcycle),
      if_neg (mt (listed_mk hstack hname).mp hcycle)]
    unfold searching holding
    by_cases hagain : name ∈ met
    · rw [if_pos ((listed_pathIn h hmet hname).mpr hagain),
        if_pos ((listed_mk hmet hname).mpr hagain)]
      exact .ok rfl hmet
    rw [if_neg (mt (listed_pathIn h hmet hname).mp hagain),
      if_neg (mt (listed_mk hmet hname).mp hagain)]
    cases hparse : Idl.parse text with
    | error e => exact .error rfl
    | ok inner =>
      have hplain := hincludes _ (Table.mem_of_find? hfind) inner hparse
      have hinner := hwithin (some (pathIn tree name)) (some ⟨name⟩) (stack ++ [name]) (name :: met)
        inner (List.forall_mem_append.mpr ⟨hstack, List.forall_mem_singleton.mpr hname⟩)
        (List.forall_mem_cons.mpr ⟨hname, hmet⟩) hplain
      rw [List.map_append, List.map_append] at hinner
      exact hinner.within

/-- One node after the other, as long as neither side fails. -/
theorem Beside.cons {paths paths' : List Path} {n : Node} {rest : List Node} {st st' : Expansion}
    (hpart : Beside tree texts (part depth origin paths n st) (part depth origin' paths' n st'))
    (hrest : ∀ met : List String, (∀ n ∈ met, Plain n) → Beside tree texts
      (nodesWithin (depth + 1) origin paths rest (searching tree met))
      (nodesWithin (depth + 1) origin' paths' rest (holding texts met))) :
    Beside tree texts (nodesWithin (depth + 1) origin paths (n :: rest) st)
      (nodesWithin (depth + 1) origin' paths' (n :: rest) st') := by
  generalize hfound : part depth origin paths n st = found at hpart
  generalize hgiven : part depth origin' paths' n st' = given at hpart
  cases hpart with
  | error hfault =>
    rw [nodesWithin_head_error hfound, nodesWithin_head_error hgiven]
    exact .error hfault
  | @ok _ _ met hnodes hmet =>
    have hafter := hrest met hmet
    generalize hfoundRest : nodesWithin (depth + 1) origin paths rest (searching tree met) = found
      at hafter
    generalize hgivenRest : nodesWithin (depth + 1) origin' paths' rest (holding texts met) = given
      at hafter
    cases hafter with
    | error hfault =>
      rw [nodesWithin_tail_error hfound hfoundRest, nodesWithin_tail_error hgiven hgivenRest]
      exact .error hfault
    | ok hnodes' hmet' =>
      rw [nodesWithin_cons_ok hfound hfoundRest, nodesWithin_cons_ok hgiven hgivenRest]
      exact .ok (by rw [List.map_append, List.map_append, hnodes, hnodes']) hmet'

theorem nodesWithin_beside (h : tree.Holds texts) (hincludes : PlainIncludes texts) :
    BesideWithin tree texts depth := by
  induction depth with
  | zero => exact fun _ _ _ _ _ _ _ _ => .error rfl
  | succ depth ih =>
    intro origin origin' stack met nodes hstack hmet hnodes
    induction nodes generalizing met with
    | nil => exact .ok rfl hmet
    | cons n rest ihrest =>
      refine Beside.cons ?_ fun met' hmet' => ihrest met' hmet' fun path hpath =>
        hnodes path (List.mem_cons_of_mem _ hpath)
      by_cases hn : Stays n
      · rw [part_of_stays hn, part_of_stays hn]
        exact .ok rfl hmet
      · obtain ⟨path, rfl⟩ : ∃ path, n = .inclusion path := by simpa [Stays] using hn
        exact included_beside h hincludes ih hstack hmet (hnodes path List.mem_cons_self)

end Run

/-! ## From file to schema -/

section Compile

variable {root text : String} {nodes out : List Node} {met : List Path} {fault : Fault}

theorem expand_searched_eq (tree : Tree) (root : String) (nodes : List Node) :
    expand (.searched (.here tree)) (some (pathIn tree root)) nodes =
      Prod.fst <$> nodesWithin (tree.files.length + 1) none ([root].map (pathIn tree)) nodes
        (searching tree [root]) :=
  expand_run (.searched (.here tree)) (some (pathIn tree root)) nodes

variable (h : tree.Holds texts) (hincludes : PlainIncludes texts)
  (hroot : Table.find? root texts = some text) (hparse : Idl.parse text = .ok nodes)

include h hincludes hroot hparse

theorem nodesWithin_root : Beside tree texts
    (nodesWithin (tree.files.length + 1) none ([root].map (pathIn tree)) nodes
      (searching tree [root]))
    (nodesWithin (tree.files.length + 1) none [⟨root⟩] nodes
      ⟨.listed (named texts), [⟨root⟩]⟩) := by
  have hmem := Table.mem_of_find? hroot
  have hplain : ∀ n ∈ [root], Plain n :=
    List.forall_mem_singleton.mpr (h.named root (List.mem_map_of_mem (f := Prod.fst) hmem)).1
  exact nodesWithin_beside h hincludes none none [root] [root] nodes hplain hplain
    (hincludes _ hmem nodes hparse)

omit hincludes hroot hparse in
/-- A level is left for each text to be met. -/
theorem length_unmet_le_files : (unmet (named texts) met).length ≤ tree.files.length := by
  have hall : (unmet (named texts) met).length ≤ (named texts).length := List.length_filter_le _ _
  rw [named, List.length_map] at hall
  exact Nat.le_trans hall h.length_le

theorem Expands.searched (hexpands : Expands (named texts) [⟨root⟩] [⟨root⟩] nodes met out) :
    ∃ found, Compile.expand (.searched (.here tree)) (some (pathIn tree root)) nodes =
      .ok found ∧ found.map (·.node) = out := by
  obtain ⟨given, hrun, rfl⟩ := hexpands.run _ (length_unmet_le_files h) none
  have hbeside := nodesWithin_root h hincludes hroot hparse
  rw [expand_searched_eq]
  rw [hrun] at hbeside
  generalize nodesWithin _ _ _ nodes (searching tree [root]) = run at hbeside ⊢
  cases hbeside with
  | ok hnodes _ => exact ⟨_, rfl, hnodes⟩

theorem Fails.searched (hfails : Fails (named texts) [⟨root⟩] [⟨root⟩] nodes fault) :
    ∃ found, Compile.expand (.searched (.here tree)) (some (pathIn tree root)) nodes =
      .error found ∧ found.root.unplaced = fault.unplaced := by
  obtain ⟨given, hrun, rfl⟩ := hfails.run _ (length_unmet_le_files h) none
  have hbeside := nodesWithin_root h hincludes hroot hparse
  rw [expand_searched_eq]
  rw [hrun] at hbeside
  generalize nodesWithin _ _ _ nodes (searching tree [root]) = run at hbeside ⊢
  cases hbeside with
  | error hfault => exact ⟨_, rfl, hfault⟩

end Compile

/-- What a run gives, its fault without the files and paths that it is told with. -/
def placeless (r : Except Fault Schema) : Except Fault Schema := r.mapError fun f => f.root.unplaced

theorem placeless_within (path : Path) (r : Except Fault Schema) :
    placeless (r.mapError (·.within path)) = placeless r := by
  cases r with
  | ok s => rfl
  | error fault =>
    exact congrArg (fun f => Except.error (Fault.unplaced f)) (fault.root_within path)

theorem placeless_build (language : String) {located located' : List Located}
    (h : located.map (·.node) = located'.map (·.node)) :
    placeless (build language located) = placeless (build language located') := by
  have hplaceless (r : Except Fault Schema) :
      placeless r = (r.mapError Fault.root).mapError Fault.unplaced := by
    cases r <;> rfl
  rw [hplaceless, hplaceless, build_root language h]

section Program

variable {root text : String} {nodes : List Node}

theorem content_root (h : tree.Holds texts) (hroot : Table.find? root texts = some text)
    (hparse : Idl.parse text = .ok nodes) : content (named texts) ⟨root⟩ = some (.ok nodes) := by
  have hplain : ∀ n ∈ texts.map Prod.fst, Plain n := fun n hn => (h.named n hn).1
  rw [content_named hplain (hplain root (Table.isSome_find?.mp (by rw [hroot]; rfl))), hroot,
    Option.map_some, hparse]

/-- A program that is a file of the working directory, and the same text with the files at hand. -/
theorem compile_searched (config : Config) (h : tree.Holds texts) (hincludes : PlainIncludes texts)
    (hroot : Table.find? root texts = some text) (hparse : Idl.parse text = .ok nodes) :
    placeless (compile config (.searched (.here tree)) (some (pathIn tree root)) nodes) =
      placeless (compile config (.listed (named texts)) none nodes) := by
  unfold compile
  rcases expands_or_fails (named texts) [⟨root⟩] [⟨root⟩] nodes with
    ⟨met, out, hexpands⟩ | ⟨fault, hfails⟩
  · obtain ⟨found, hfound, hnodes⟩ := hexpands.searched h hincludes hroot hparse
    obtain ⟨seen, hunrooted, -⟩ := hexpands.unrooted (Apart.start _)
    obtain ⟨given, hgiven, hnodes'⟩ := hunrooted.expand
    rw [hfound, hgiven]
    exact placeless_build config.language (hnodes.trans hnodes'.symm)
  · obtain ⟨found, hfound, hcause⟩ := hfails.searched h hincludes hroot hparse
    obtain ⟨fault', hunrooted, hcause'⟩ := hfails.unrooted (content_root h hroot hparse)
    obtain ⟨given, hgiven, rfl⟩ := hunrooted.expand
    rw [hfound, hgiven]
    exact congrArg Except.error (hcause.trans hcause'.symm)

/-- A program that includes itself, with all files at hand. -/
theorem compile_of_includes (config : Config) {files : List (Path × String)} {root : Path}
    (hroot : content files root = some (.ok nodes)) (hitself : Includes files nodes root) :
    ∃ fault, placeless (compile config (.listed files) none nodes) = .error fault ∧
      (Readable files nodes → fault = .includeCycle []) := by
  obtain ⟨fault, hfails⟩ := (expands_or_fails files [root] [root] nodes).resolve_left
    fun ⟨_, _, hexpands⟩ => not_expands_of_includes hitself hexpands
  obtain ⟨fault', hunrooted, hcause⟩ := hfails.unrooted hroot
  obtain ⟨given, hgiven, rfl⟩ := hunrooted.expand
  refine ⟨fault.unplaced, ?_, fun hreadable => ?_⟩
  · unfold compile
    rw [hgiven, ← hcause]
    rfl
  · obtain ⟨chain, rfl⟩ := hfails.cycle_of_readable hreadable
    rfl

/-- A file of the working directory compiles to what its text compiles to with the files of the
directory at hand. If the file includes itself, directly or through others, neither compiles, and
with all files there and in order both fail for the cycle. -/
theorem compileFile_eq_compileText (config : Config) (hdirectories : config.includeDirectories = [])
    (h : tree.Holds texts) (hincludes : PlainIncludes texts)
    (hroot : Table.find? root texts = some text) (path : Path)
    (hpath : tree.locate path = .ok (tree.working ++ [root])) :
    placeless (compileFile config tree path) =
        placeless (compileText config (.listed (named texts)) text) ∧
      ∀ nodes, Idl.parse text = .ok nodes → Includes (named texts) nodes ⟨root⟩ →
        ∃ fault, placeless (compileFile config tree path) = .error fault ∧
          placeless (compileText config (.listed (named texts)) text) = .error fault ∧
          (Readable (named texts) nodes → fault = .includeCycle []) := by
  have hfile : compileFile config tree path = (Idl.parse text).mapError (.malformed path) >>=
      fun nodes =>
        (compile config (.searched (.here tree)) (some (pathIn tree root)) nodes).mapError
          (·.within path) := by
    unfold compileFile
    rw [h.read_of_locate hroot hpath]
    simp only [hdirectories, Search.ofDirectories_here h.plain]
    rfl
  have htext : compileText config (.listed (named texts)) text =
      (Idl.parse text).mapError (.malformed ⟨"<input>"⟩) >>=
        compile config (.listed (named texts)) none := rfl
  rw [hfile, htext]
  cases hparse : Idl.parse text with
  | error e => exact ⟨rfl, fun nodes hnodes => nomatch hnodes⟩
  | ok nodes =>
    have hsame := compile_searched config h hincludes hroot hparse
    refine ⟨(placeless_within path _).trans hsame, ?_⟩
    rintro _ ⟨⟩ hitself
    obtain ⟨fault, hfault, hcycle⟩ :=
      compile_of_includes config (content_root h hroot hparse) hitself
    exact ⟨fault, (placeless_within path _).trans (hsame.trans hfault), hfault, hcycle⟩

end Program

/-! The sample files in a directory. -/

def sampleTexts : Table String String :=
  [("mid", "include 'base' senum Mid {}"), ("base", "senum Base {}"),
    ("left", "include 'right' senum Left {}"), ("right", "include 'left' senum Right {}")]

def sampleTree : Tree where
  files := sampleTexts.map fun f => (["idl", f.1], Text.Utf8.encode f.2)
  directories := [["idl", "more"]]
  working := ["idl"]

theorem sample_holds : sampleTree.Holds sampleTexts where
  working := by rfl
  plain := by decide +kernel
  named := by decide +kernel
  distinct := by decide +kernel
  files name := by
    simp only [sampleTree, sampleTexts, List.map_cons, List.map_nil, Table.find?, List.cons_append,
      List.nil_append, List.cons.injEq, true_and, and_true]
    repeat' split
    all_goals rfl

theorem sample_plainIncludes : PlainIncludes sampleTexts := by
  have hmid : Idl.parse "include 'base' senum Mid {}" = _ := Option.some.inj content_mid
  have hbase : Idl.parse "senum Base {}" = _ := Option.some.inj content_base
  have hleft : Idl.parse "include 'right' senum Left {}" = _ := Option.some.inj content_left
  have hright : Idl.parse "include 'left' senum Right {}" = _ := Option.some.inj content_right
  simp only [PlainIncludes, sampleTexts, List.forall_mem_cons, hmid, hbase, hleft, hright,
    Except.ok.injEq, forall_eq']
  simp [Plain]

theorem includes_circle {nodes : List Node} {target : Path}
    (h : Includes sampleFiles nodes target)
    (hnodes : nodes = [.inclusion "right", .senum "Left" []] ∨
      nodes = [.inclusion "left", .senum "Right" []]) : target = ⟨"left"⟩ ∨ target = ⟨"right"⟩ := by
  induction h with
  | @direct _ path hmem =>
    rcases hnodes with rfl | rfl
    · obtain rfl : path = "right" := by simpa using hmem
      exact .inr rfl
    · obtain rfl : path = "left" := by simpa using hmem
      exact .inl rfl
  | @through _ _ path _ hmem hc _ ih =>
    rcases hnodes with rfl | rfl
    · obtain rfl : path = "right" := by simpa using hmem
      cases content_right.symm.trans hc
      exact ih (.inr rfl)
    · obtain rfl : path = "left" := by simpa using hmem
      cases content_left.symm.trans hc
      exact ih (.inl rfl)

theorem circle_readable : Readable sampleFiles [.inclusion "right", .senum "Left" []] := by
  intro path hpath
  rcases includes_circle hpath (.inl rfl) with rfl | rfl
  · exact ⟨_, content_left⟩
  · exact ⟨_, content_right⟩

theorem circle_includes :
    Includes sampleFiles [.inclusion "right", .senum "Left" []] ⟨"left"⟩ :=
  .through List.mem_cons_self content_right (.direct List.mem_cons_self)

theorem compileFile_eq_compileText_sample :
    placeless (compileFile {} sampleTree ⟨"mid"⟩) =
      placeless (compileText {} (.listed (named sampleTexts)) "include 'base' senum Mid {}") ∧
    placeless (compileFile {} sampleTree ⟨"more/../left"⟩) = .error (.includeCycle []) ∧
    placeless (compileText {} (.listed (named sampleTexts)) "include 'right' senum Left {}") =
      .error (.includeCycle []) := by
  have hmid : sampleTree.locate ⟨"mid"⟩ = .ok (sampleTree.working ++ ["mid"]) := by decide +kernel
  have hleft : sampleTree.locate ⟨"more/../left"⟩ = .ok (sampleTree.working ++ ["left"]) := by
    decide +kernel
  refine ⟨(compileFile_eq_compileText {} rfl sample_holds sample_plainIncludes rfl _ hmid).1, ?_⟩
  obtain ⟨fault, hfile, htext, hcycle⟩ := (compileFile_eq_compileText {} rfl sample_holds
    sample_plainIncludes rfl _ hleft).2 _ (Option.some.inj content_left) circle_includes
  rw [hfile, htext, hcycle circle_readable]
  exact ⟨rfl, rfl⟩

end ThriftRpc.Compile
