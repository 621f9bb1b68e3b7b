import ThriftRpc.Compile.Library
import ThriftRpc.Proofs.Files.Directory
import ThriftRpc.Proofs.Wire.Transfer

/-!
# Searching over a run

Directories are added to a search on request and with every file that is read. Over any run of these
calls the list of directories grows at its end and never holds two paths that are the same; a read
finds a file in the first directory that has it and knows it by one path (`search_over_runs`).
-/

namespace ThriftRpc.Compile

open Files (Path Tree Location Plain)
open Wire (run_bind_ok)

namespace Search

variable {s left : Search} {p d : Path} {ds ds' : List Path} {path : String} {file file' : Location}
  {source : Source}

/-- What `ds` becomes when `d` is added: `d` comes last, unless a path like it is listed. -/
inductive Adds (ds : List Path) (d : Path) : List Path → Prop
  | listed {e : Path} : e ∈ ds → e.same d = true → Adds ds d ds
  | new : (∀ e ∈ ds, e.same d = false) → Adds ds d (ds ++ [d])

theorem addDirectory_adds (s : Search) (d : Path) :
    Adds s.directories (if d.text = "" then ⟨"."⟩ else d) (s.addDirectory d).directories := by
  unfold addDirectory
  dsimp only
  generalize (if d.text = "" then (⟨"."⟩ : Path) else d) = d
  split
  · next hany =>
    obtain ⟨e, he, hsame⟩ := List.any_eq_true.mp hany
    exact .listed he hsame
  · next hnone =>
    refine .new fun e he => Bool.eq_false_iff.mpr fun hsame => hnone ?_
    exact List.any_eq_true.mpr ⟨e, he, hsame⟩

theorem tree_addDirectory (s : Search) (d : Path) : (s.addDirectory d).tree = s.tree := by
  unfold addDirectory
  dsimp only
  generalize (if d.text = "" then (⟨"."⟩ : Path) else d) = d
  split <;> rfl

theorem addDirectoryOf_adds (s : Search) (file : Location) :
    Adds s.directories (Location.path file.dropLast) (s.addDirectoryOf file).directories := by
  have htext : (Location.path file.dropLast).text ≠ "" := by simp [Location.path]
  have hadds := s.addDirectory_adds (Location.path file.dropLast)
  rwa [if_neg htext] at hadds

/-- No two of the paths are the same. -/
def Distinct (ds : List Path) : Prop := ds.Pairwise fun d e => d.same e = false

theorem Adds.distinct (h : Adds ds d ds') (hds : Distinct ds) : Distinct ds' := by
  cases h with
  | listed => exact hds
  | new hnew =>
    refine List.pairwise_append.mpr ⟨hds, List.pairwise_singleton _ _, fun e he e' he' => ?_⟩
    obtain rfl := List.mem_singleton.mp he'
    exact hnew e he

theorem Adds.prefix_of (h : Adds ds d ds') : ds <+: ds' := by
  cases h with
  | listed => exact List.prefix_rfl
  | new => exact List.prefix_append ds [d]

theorem Adds.unique {ds'' : List Path} (h : Adds ds d ds') (h' : Adds ds d ds'') : ds' = ds'' := by
  cases h with
  | listed he hsame =>
    cases h' with
    | listed => rfl
    | new hnew => cases hsame.symm.trans (hnew _ he)
  | new hnew =>
    cases h' with
    | listed he hsame => cases hsame.symm.trans (hnew _ he)
    | new => rfl

theorem eq_addDirectoryOf_iff : left = s.addDirectoryOf file ↔
    left.tree = s.tree ∧ Adds s.directories (Location.path file.dropLast) left.directories := by
  constructor
  · rintro rfl
    exact ⟨s.tree_addDirectory _, s.addDirectoryOf_adds file⟩
  · rintro ⟨htree, hadds⟩
    have hdirectories := hadds.unique (s.addDirectoryOf_adds file)
    calc left = ⟨s.tree, (s.addDirectoryOf file).directories⟩ := by rw [← htree, ← hdirectories]
      _ = s.addDirectoryOf file := by rw [← s.tree_addDirectory (Location.path file.dropLast)]; rfl

/-! ## Finding and reading a file -/

/-- The path means the file: it leads there if it is absolute, else as seen from the first directory
from which it leads to a file. -/
inductive Means (s : Search) (p : Path) (file : Location) : Prop
  | absolute : p.isAbsolute = true → s.tree.Leads p file → Means s p file
  | relative (before after : List Path) {d : Path} : p.isAbsolute = false →
    s.directories = before ++ d :: after → (∀ e ∈ before, s.tree.isFile (e.join p) = false) →
      s.tree.Leads (d.join p) file → Means s p file

theorem means_iff : Means s p file ↔
    ∃ found, s.locate? p = some found ∧ s.tree.Leads found file := by
  unfold locate? candidates
  constructor
  · rintro (⟨habsolute, hleads⟩ | ⟨before, after, hrelative, hsplit, hbefore, hleads⟩)
    · have hfile := Tree.isFile_iff_leads.mpr ⟨file, hleads⟩
      exact ⟨p, by rw [if_pos habsolute, List.find?_singleton, if_pos hfile], hleads⟩
    · have hfile := Tree.isFile_iff_leads.mpr ⟨file, hleads⟩
      refine ⟨_, ?_, hleads⟩
      rw [hrelative, if_neg Bool.false_ne_true, hsplit, List.map_append, List.map_cons,
        List.find?_eq_some_iff_append]
      refine ⟨hfile, _, _, rfl, List.forall_mem_map.mpr fun e he => ?_⟩
      rw [hbefore e he]
      rfl
  · rintro ⟨found, hfind, hleads⟩
    cases habsolute : p.isAbsolute with
    | true =>
      rw [if_pos habsolute] at hfind
      obtain rfl := List.mem_singleton.mp (List.mem_of_find?_eq_some hfind)
      exact .absolute habsolute hleads
    | false =>
      rw [habsolute, if_neg Bool.false_ne_true] at hfind
      obtain ⟨-, front, rest, hmap, hfront⟩ := List.find?_eq_some_iff_append.mp hfind
      obtain ⟨before, behind, hsplit, rfl, hbehind⟩ := List.map_eq_append_iff.mp hmap
      obtain ⟨d, after, rfl, rfl, -⟩ := List.map_eq_cons_iff.mp hbehind
      refine .relative before after habsolute hsplit (fun e he => ?_) hleads
      simpa using hfront _ (List.mem_map_of_mem he)

/-- A path means one file. -/
theorem Means.unique (h : Means s p file) (h' : Means s p file') : file = file' := by
  obtain ⟨found, hfound, hleads⟩ := means_iff.mp h
  obtain ⟨found', hfound', hleads'⟩ := means_iff.mp h'
  obtain rfl := Option.some.inj (hfound.symm.trans hfound')
  exact Except.ok.inj (hleads.1.symm.trans hleads'.1)

theorem Means.plain (h : Means s p file) (hworking : ∀ n ∈ s.tree.working, Plain n) :
    ∀ n ∈ file, Plain n := by
  obtain ⟨found, -, hlocate, -⟩ := means_iff.mp h
  exact Tree.plain_of_locate hworking hlocate

theorem read_eq_ok_iff : s.read path = .ok (source, left) ↔ ∃ file, Means s ⟨path⟩ file ∧
    Table.find? file s.tree.files = some (Text.Utf8.encode source.text) ∧
    source.path = file.path ∧ left = s.addDirectoryOf file := by
  unfold read
  constructor
  · intro h
    cases hfound : s.locate? ⟨path⟩ with
    | none => rw [hfound] at h; cases h
    | some found =>
      cases hread : s.tree.read found with
      | error fault => simp only [hfound, hread] at h; cases h
      | ok answer =>
        simp only [hfound, hread] at h
        cases h
        obtain ⟨hlocate, hfind⟩ := Tree.read_eq_ok_iff.mp hread
        have hmeans := means_iff.mpr ⟨found, hfound, hlocate, by rw [hfind]; rfl⟩
        exact ⟨answer.1, hmeans, hfind, rfl, rfl⟩
  · rintro ⟨file, hmeans, hfind, hpath, rfl⟩
    obtain ⟨found, hfound, hlocate, -⟩ := means_iff.mp hmeans
    have hread := Tree.read_eq_ok_iff.mpr ⟨hlocate, hfind⟩
    simp only [hfound, hread, ← hpath]
    rfl

/-- The file that the path means is the one that is read. -/
theorem read_of_means (hread : s.read path = .ok (source, left)) (h : Means s ⟨path⟩ file) :
    Table.find? file s.tree.files = some (Text.Utf8.encode source.text) ∧
      source.path = file.path := by
  obtain ⟨read, hmeans, hfind, hpath, -⟩ := read_eq_ok_iff.mp hread
  obtain rfl := hmeans.unique h
  exact ⟨hfind, hpath⟩

/-- Reading as an action on the search, which it changes behind the last step that can fail. -/
def reading (path : String) : ExceptT Fault (StateM Search) Source := do
  let some found := (← get).locate? ⟨path⟩ | throw (.includeNotFound path)
  match (← get).tree.read found with
  | .error fault => throw (.io fault)
  | .ok (file, text) =>
    modify fun s => s.addDirectoryOf file
    return ⟨file.path, text⟩

theorem reading_eq (path : String) (s : Search) : reading path s = match s.read path with
    | .ok (source, left) => (.ok source, left)
    | .error fault => (.error fault, s) := by
  have hget : (get : ExceptT Fault (StateM Search) Search) s = (.ok s, s) := rfl
  unfold read reading
  rw [run_bind_ok hget]
  cases s.locate? ⟨path⟩ with
  | none => rfl
  | some found =>
    dsimp only
    rw [run_bind_ok hget]
    cases s.tree.read found <;> rfl

/-! ## Runs -/

/-- What a search can be asked to do. -/
inductive Call where
  | add (d : Path)
  | read (path : String)

/-- The search that a call leaves behind. -/
def Call.leave : Call → Search → Search
  | add d, s => s.addDirectory d
  | read path, s => (reading path s).2

def after (s : Search) (calls : List Call) : Search := calls.foldl (fun s c => c.leave s) s

/-- A call adds at most one directory. -/
theorem Call.leave_adds (c : Call) (s : Search) : (c.leave s).tree = s.tree ∧
    ((c.leave s).directories = s.directories ∨
      ∃ d, Adds s.directories d (c.leave s).directories) := by
  cases c with
  | add d => exact ⟨s.tree_addDirectory d, .inr ⟨_, s.addDirectory_adds d⟩⟩
  | read path =>
    have hleave : (Call.read path).leave s = (reading path s).2 := rfl
    rw [hleave, reading_eq]
    cases hread : s.read path with
    | error fault => exact ⟨rfl, .inl rfl⟩
    | ok answer =>
      obtain ⟨file, -, -, -, hleft⟩ := read_eq_ok_iff.mp hread
      dsimp only
      rw [hleft]
      exact ⟨s.tree_addDirectory _, .inr ⟨_, s.addDirectoryOf_adds file⟩⟩

theorem Call.prefix_leave (c : Call) (s : Search) :
    s.directories <+: (c.leave s).directories := by
  rcases (c.leave_adds s).2 with heq | ⟨d, hadds⟩
  · exact heq ▸ List.prefix_rfl
  · exact hadds.prefix_of

theorem Call.distinct_leave (c : Call) (h : Distinct s.directories) :
    Distinct (c.leave s).directories := by
  rcases (c.leave_adds s).2 with heq | ⟨d, hadds⟩
  · exact heq ▸ h
  · exact hadds.distinct h

/-- What every call keeps, a run keeps. -/
theorem keeps_after {P : Search → Prop} (hkeeps : ∀ (c : Call) (s : Search), P s → P (c.leave s))
    (h : P s) (calls : List Call) : P (s.after calls) := by
  induction calls generalizing s with
  | nil => exact h
  | cons c calls ih => exact ih (hkeeps c s h)

theorem tree_after (s : Search) (calls : List Call) : (s.after calls).tree = s.tree :=
  keeps_after (P := fun s' => s'.tree = s.tree) (fun c s' h => (c.leave_adds s').1.trans h) rfl
    calls

theorem prefix_after (s : Search) (calls : List Call) :
    s.directories <+: (s.after calls).directories :=
  keeps_after (P := fun s' => s.directories <+: s'.directories)
    (fun c s' h => h.trans (c.prefix_leave s')) List.prefix_rfl calls

theorem distinct_after (h : Distinct s.directories) (calls : List Call) :
    Distinct (s.after calls).directories :=
  keeps_after (P := fun s' => Distinct s'.directories) (fun c _ => c.distinct_leave) h calls

/-- A search begins with its first directories added. -/
theorem ofDirectories_eq (tree : Tree) (ds : List Path) :
    ofDirectories tree ds = after ⟨tree, []⟩ ((ds ++ [(⟨"."⟩ : Path)]).map .add) := by
  unfold after
  rw [List.foldl_map]
  rfl

theorem tree_ofDirectories (tree : Tree) (ds : List Path) :
    (ofDirectories tree ds).tree = tree := by
  rw [ofDirectories_eq, tree_after]

theorem distinct_ofDirectories (tree : Tree) (ds : List Path) :
    Distinct (ofDirectories tree ds).directories := by
  have hempty : Distinct (⟨tree, []⟩ : Search).directories := .nil
  rw [ofDirectories_eq]
  exact distinct_after hempty _

/-- A search over the tree that has begun with some directories and gone through some calls. -/
def Reached (tree : Tree) (s : Search) : Prop :=
  ∃ ds calls, s = (ofDirectories tree ds).after calls

theorem Reached.tree_eq {tree : Tree} (h : Reached tree s) : s.tree = tree := by
  obtain ⟨ds, calls, rfl⟩ := h
  rw [tree_after, tree_ofDirectories]

theorem Reached.distinct {tree : Tree} (h : Reached tree s) : Distinct s.directories := by
  obtain ⟨ds, calls, rfl⟩ := h
  exact distinct_after (distinct_ofDirectories tree ds) calls

/-- Over any run no two directories are the same, and those listed stay in their places. A directory
that is added is listed, the working directory for the empty path. A read that fails changes
nothing; one that succeeds gives the text of the file that the path means, under the path from the
root to the file, and adds the directory of the file. So reads of one file, in any two runs, give
the same, and reads of two files give different paths. -/
theorem search_over_runs {tree : Tree} {s : Search} (hs : Reached tree s) :
    Distinct s.directories ∧
    (∀ calls, s.directories <+: (s.after calls).directories) ∧
    (∀ d, Adds s.directories (if d.text = "" then ⟨"."⟩ else d) (s.addDirectory d).directories) ∧
    (∀ path, reading path s = match s.read path with
      | .ok (source, left) => (.ok source, left)
      | .error fault => (.error fault, s)) ∧
    (∀ path source left, s.read path = .ok (source, left) ↔
      ∃ file, Means s ⟨path⟩ file ∧
        Table.find? file tree.files = some (Text.Utf8.encode source.text) ∧
        source.path = file.path ∧ left.tree = tree ∧
        Adds s.directories (Location.path file.dropLast) left.directories) ∧
    ∀ s', Reached tree s' → ∀ path path' source source' left left',
      s.read path = .ok (source, left) → s'.read path' = .ok (source', left') →
      ∀ file file', Means s ⟨path⟩ file → Means s' ⟨path'⟩ file' →
        (file = file' → source = source') ∧
        ((∀ n ∈ tree.working, Plain n) → source.path.same source'.path = true → file = file') := by
  refine ⟨hs.distinct, prefix_after s, s.addDirectory_adds, fun path => reading_eq path s, ?_, ?_⟩
  · intro path source left
    simp only [read_eq_ok_iff, eq_addDirectoryOf_iff, hs.tree_eq]
  · intro s' hs' path path' source source' left left' hread hread' file file' hmeans hmeans'
    obtain ⟨hfind, hpath⟩ := read_of_means hread hmeans
    obtain ⟨hfind', hpath'⟩ := read_of_means hread' hmeans'
    rw [hs.tree_eq] at hfind
    rw [hs'.tree_eq] at hfind'
    constructor
    · rintro rfl
      have hbytes : Text.Utf8.encode source.text = Text.Utf8.encode source'.text :=
        Option.some.inj (hfind.symm.trans hfind')
      have htext : source.text = source'.text := Except.ok.inj <|
        (Text.Utf8.decode_encode _).symm.trans (Text.Utf8.decode_eq_ok_iff.mpr hbytes)
      cases source
      cases source'
      rw [Source.mk.injEq]
      exact ⟨hpath.trans hpath'.symm, htext⟩
    · intro hworking hsame
      rw [hpath, hpath'] at hsame
      exact (Path.same_path_iff (hmeans.plain (hs.tree_eq ▸ hworking))
        (hmeans'.plain (hs'.tree_eq ▸ hworking))).mp hsame

/-- A file beside a directory with two more, one of which is no text. -/
def houseTree : Tree where
  files := [(["house", "roof"], [0x72]), (["house", "hall", "door"], [0x64]),
    (["house", "hall", "wall"], [0xFF])]
  working := ["house"]

/-- The search of the hall under three paths, two of them the same, and of the working directory,
after a read that fails. -/
def houseSearch : Search :=
  (ofDirectories houseTree [⟨"hall"⟩, ⟨"./hall"⟩, ⟨"hall/"⟩]).after [.add ⟨""⟩, .read "wall"]

theorem houseSearch_reached : Reached houseTree houseSearch := ⟨_, _, rfl⟩

theorem houseSearch_directories :
    houseSearch.directories = [⟨"hall"⟩, ⟨"./hall"⟩, ⟨"."⟩] := by
  decide +kernel

theorem means_door : Means houseSearch ⟨"door"⟩ ["house", "hall", "door"] :=
  .relative [] _ (by decide +kernel) houseSearch_directories (by decide +kernel)
    ⟨by decide +kernel, by decide +kernel⟩

/-- The hall has no directory of its name. -/
theorem means_hall_door : Means houseSearch ⟨"hall/door"⟩ ["house", "hall", "door"] :=
  .relative [⟨"hall"⟩, ⟨"./hall"⟩] _ (by decide +kernel) houseSearch_directories
    (by decide +kernel) ⟨by decide +kernel, by decide +kernel⟩

theorem search_over_runs_house :
    Distinct houseSearch.directories ∧
      houseSearch.directories <+: (houseSearch.after [.read "hall/door"]).directories ∧
      (∃ fault, reading "wall" houseSearch = (.error fault, houseSearch)) ∧
      ∃ source left left', source.path = ⟨"/house/hall/door"⟩ ∧
        houseSearch.read "door" = .ok (source, left) ∧
        houseSearch.read "hall/door" = .ok (source, left') := by
  obtain ⟨hdistinct, hgrows, -, hreading, hreads, hfiles⟩ := search_over_runs houseSearch_reached
  have hread {path : String} (hmeans : Means houseSearch ⟨path⟩ ["house", "hall", "door"]) :
      ∃ source left, source.path = ⟨"/house/hall/door"⟩ ∧
        houseSearch.read path = .ok (source, left) := by
    refine ⟨⟨⟨"/house/hall/door"⟩, "d"⟩,
      ⟨houseTree, [⟨"hall"⟩, ⟨"./hall"⟩, ⟨"."⟩, ⟨"/house/hall"⟩]⟩, rfl, (hreads _ _ _).mpr
      ⟨_, hmeans, by decide +kernel, by decide +kernel, rfl, ?_⟩⟩
    rw [houseSearch_directories]
    exact .new (by decide +kernel)
  have hfault : (houseSearch.read "wall").isOk = false := by decide +kernel
  refine ⟨hdistinct, hgrows _, ?_, ?_⟩
  · rw [hreading]
    cases hwall : houseSearch.read "wall" with
    | ok answer =>
      rw [hwall] at hfault
      cases hfault
    | error fault => exact ⟨fault, rfl⟩
  · obtain ⟨source, left, hpath, hdoor⟩ := hread means_door
    obtain ⟨source', left', -, hhall⟩ := hread means_hall_door
    obtain ⟨hsame, -⟩ := hfiles _ houseSearch_reached _ _ _ _ _ _ hdoor hhall _ _ means_door
      means_hall_door
    obtain rfl := hsame rfl
    exact ⟨source, left, left', hpath, hdoor, hhall⟩

end Search

end ThriftRpc.Compile
