import ThriftRpc.Proofs.Compile.Walk
import ThriftRpc.Proofs.Compile.WellOrdered

/-!
# Faults and the files they lie in

A file that does not compile has one cause, and the text of one file holds it (`Lies`): the syntax
error, the include that leads nowhere or closes a cycle, the second definition of a name, or the
first demand that is not met. The fault names that file, unless it is that of a name that is defined
twice: then it names the file that was to be compiled, wherever the second definition is
(`compileFile_names`).
-/

namespace ThriftRpc.Compile

open Files (Path Tree Location)
open Idl (Node)

/-- Where a search for the includes of a file begins. -/
def Search.start (config : Config) (tree : Tree) (file : Location) : Search :=
  (Search.ofDirectories tree config.includeDirectories).addDirectoryOf file

/-- Following the includes of the file `path` leads to this outcome. -/
inductive Gathers (config : Config) (tree : Tree) (path : Path) : Outcome → Prop
  | unread {fault : Files.Fault} : tree.read path = .error fault →
    Gathers config tree path (.broken path (.io fault))
  | malformed {file : Location} {text : String} {e : Idl.ParseError} :
    tree.read path = .ok (file, text) → Idl.parse text = .error e →
      Gathers config tree path (.broken path (.malformed path e))
  | walked {file : Location} {text : String} {nodes : List Node} {outcome : Outcome} :
    tree.read path = .ok (file, text) → Idl.parse text = .ok nodes →
      Walks path [file.path] ⟨.searched (.start config tree file), [file.path]⟩ nodes outcome →
      Gathers config tree path outcome

variable {config : Config} {tree : Tree} {path p q : Path} {fault cause : Fault} {st : Expansion}
  {outcome outcome' : Outcome} {program : List Placed} {located : List Located}

theorem Gathers.unique (h : Gathers config tree path outcome)
    (h' : Gathers config tree path outcome') : outcome = outcome' := by
  cases h with
  | unread hread =>
    cases h' with
    | unread hread' => cases hread.symm.trans hread'; rfl
    | malformed hread' | walked hread' => cases hread.symm.trans hread'
  | malformed hread hparse =>
    cases h' with
    | unread hread' => cases hread.symm.trans hread'
    | malformed hread' hparse' =>
      cases hread.symm.trans hread'
      cases hparse.symm.trans hparse'
      rfl
    | walked hread' hparse' =>
      cases hread.symm.trans hread'
      cases hparse.symm.trans hparse'
  | walked hread hparse hwalks =>
    cases h' with
    | unread hread' => cases hread.symm.trans hread'
    | malformed hread' hparse' =>
      cases hread.symm.trans hread'
      cases hparse.symm.trans hparse'
    | walked hread' hparse' hwalks' =>
      cases hread.symm.trans hread'
      cases hparse.symm.trans hparse'
      exact hwalks.unique hwalks'

theorem Gathers.arises (h : Gathers config tree path (.broken p cause)) : cause.Arises p := by
  cases h with
  | unread => trivial
  | malformed => rfl
  | walked _ _ hwalks => exact hwalks.arises

/-- What the compiler makes of an outcome. -/
inductive Yields (language : String) (path : Path) : Outcome → Except Fault Schema → Prop
  | broken {p : Path} {cause : Fault} :
    Yields language path (.broken p cause) (.error (cause.within p))
  | whole {st : Expansion} {located : List Located} :
    Yields language path (.whole st (located.map (Located.placed path)))
      ((build language located).mapError (·.within path))

theorem compile_walks (config : Config) {file : Location} (path : Path) (nodes : List Node)
    (hfile : file ∈ tree.files.map Prod.fst) :
    ∃ outcome, Walks path [file.path] ⟨.searched (.start config tree file), [file.path]⟩ nodes
        outcome ∧
      Yields config.language path outcome
        ((compile config (.searched (.start config tree file)) (some file.path) nodes).mapError
          (·.within path)) := by
  have htree : (Search.start config tree file).tree = tree := by
    rw [Search.start, Search.addDirectoryOf, Search.tree_addDirectory, Search.tree_ofDirectories]
  have hover : (⟨.searched (.start config tree file), [file.path]⟩ : Expansion).library.Over tree :=
    htree
  have hheld : Held tree [file.path] :=
    ⟨[file], rfl, List.nodup_singleton file, List.cons_subset.mpr ⟨hfile, List.nil_subset _⟩⟩
  have hdepth : tree.files.length < (tree.files.length + 1) + [file.path].length := by
    rw [List.length_singleton]
    omega
  have hexpand : expand (.searched (.start config tree file)) (some file.path) nodes =
      Prod.fst <$> Expanding.nodesWithin (tree.files.length + 1) none [file.path] nodes
        ⟨.searched (.start config tree file), [file.path]⟩ := by
    have hsize : (Library.searched (.start config tree file)).size = tree.files.length := by
      rw [Library.size, htree]
    rw [← hsize]
    exact expand_run _ _ _
  obtain ⟨outcome, hwalks, hfollows⟩ := nodesWithin_walks path hheld hdepth hover none
  refine ⟨outcome, hwalks, ?_⟩
  unfold compile
  rw [hexpand]
  generalize Expanding.nodesWithin _ _ _ _ _ = run at hfollows ⊢
  cases hfollows with
  | whole => exact .whole
  | @broken found cause p htold =>
    have hfound : found.within path = cause.within p := htold
    show Yields _ _ _ (.error (found.within path))
    rw [hfound]
    exact .broken

theorem compileFile_gathers (config : Config) (tree : Tree) (path : Path) :
    ∃ outcome, Gathers config tree path outcome ∧
      Yields config.language path outcome (compileFile config tree path) := by
  unfold compileFile
  cases hread : tree.read path with
  | error fault => exact ⟨_, .unread hread, .broken⟩
  | ok r =>
    obtain ⟨file, text⟩ := r
    dsimp only [parseAs]
    cases hparse : Idl.parse text with
    | error e => exact ⟨_, .malformed hread hparse, .broken⟩
    | ok nodes =>
      obtain ⟨outcome, hwalks, hyields⟩ :=
        compile_walks config path nodes (mem_files_of_read hread)
      exact ⟨outcome, .walked hread hparse hwalks, hyields⟩

/-! ## What lies where -/

/-- The names that a program defines, each with the file of its definition. -/
def definitions (program : List Placed) : List (Path × String) :=
  program.filterMap fun n => (definitionName? n.node).map (n.home, ·)

/-- The demands that are made of a program, each with the file of the node it is made of. -/
def placedDemands (visible : List String) : List Placed → List (Path × Demand)
  | [] => []
  | n :: rest => (nodeDemands visible n.node).map (n.home, ·) ++
      placedDemands (visible ++ (typeName? n.node).toList) rest

/-- `Lies config tree path p cause`: the file `path` does not compile, for a cause that lies in the
text of the file `p`. -/
inductive Lies (config : Config) (tree : Tree) (path : Path) : Path → Fault → Prop
  | reading {p : Path} {cause : Fault} : Gathers config tree path (.broken p cause) →
    Lies config tree path p cause
  | twice {st : Expansion} {program : List Placed} {before after : List (Path × String)} {p : Path}
      {name : String} : Gathers config tree path (.whole st program) →
    definitions program = before ++ (p, name) :: after → (before.map Prod.snd).Nodup →
      name ∈ before.map Prod.snd → Lies config tree path p (.duplicateType name)
  | unmet {st : Expansion} {program : List Placed} {before after : List (Path × Demand)} {p : Path}
      {d : Demand} : Gathers config tree path (.whole st program) →
    ((definitions program).map Prod.snd).Nodup →
      placedDemands [] program = before ++ (p, d) :: after → (∀ b ∈ before, b.2.Met) → ¬ d.Met →
        Lies config tree path p d.fault

theorem not_nodup_twice {before after : List (Path × String)} {e : Path × String}
    (h : e.2 ∈ before.map Prod.snd) : ¬ ((before ++ e :: after).map Prod.snd).Nodup := by
  rw [List.map_append, List.nodup_append]
  exact fun hd => hd.2.2 _ h _ (List.mem_map_of_mem List.mem_cons_self) rfl

theorem not_met_first {before after : List (Path × Demand)} {e : Path × Demand}
    (h : ¬ e.2.Met) : ¬ ∀ b ∈ before ++ e :: after, b.2.Met := fun hall =>
  h (hall e (List.mem_append_right _ List.mem_cons_self))

theorem Lies.unique (h : Lies config tree path p fault) (h' : Lies config tree path q cause) :
    p = q ∧ fault = cause := by
  cases h with
  | reading hg =>
    cases h' with
    | reading hg' => cases hg.unique hg'; exact ⟨rfl, rfl⟩
    | twice hg' | unmet hg' => cases hg.unique hg'
  | twice hg hnames hbefore hname =>
    cases h' with
    | reading hg' => cases hg.unique hg'
    | twice hg' hnames' hbefore' hname' =>
      cases hg.unique hg'
      have hplace := break_unique (P := fun ds : List (Path × String) => (ds.map Prod.snd).Nodup)
        (fun as bs h => h.sublist ((List.sublist_append_left as bs).map _))
        (hnames.symm.trans hnames') hbefore hbefore' (not_nodup_twice hname)
        (not_nodup_twice hname')
      cases hplace
      exact ⟨rfl, rfl⟩
    | unmet hg' hdistinct =>
      cases hg.unique hg'
      exact absurd (hnames ▸ hdistinct) (not_nodup_twice hname)
  | unmet hg hdistinct hdemands hbefore hd =>
    cases h' with
    | reading hg' => cases hg.unique hg'
    | twice hg' hnames' _ hname' =>
      cases hg.unique hg'
      exact absurd (hnames' ▸ hdistinct) (not_nodup_twice hname')
    | unmet hg' _ hdemands' hbefore' hd' =>
      cases hg.unique hg'
      have hplace := break_unique (P := fun ds : List (Path × Demand) => ∀ b ∈ ds, b.2.Met)
        (fun as bs h b hb => h b (List.mem_append_left bs hb))
        (hdemands.symm.trans hdemands') hbefore hbefore' (not_met_first hd) (not_met_first hd')
      cases hplace
      exact ⟨rfl, rfl⟩

/-! ## The build, file by file -/

/-- As `check`, with the fault within the file of its demand. -/
def checkPlaced : List (Path × Demand) → Except Fault Unit
  | [] => .ok ()
  | (p, d) :: ds => if d.Met then checkPlaced ds else .error (d.fault.within p)

section CheckPlaced

variable {ds ds' : List (Path × Demand)} {d : Demand}

theorem checkPlaced_append (ds ds' : List (Path × Demand)) :
    checkPlaced (ds ++ ds') = checkPlaced ds >>= fun _ => checkPlaced ds' := by
  induction ds with
  | nil => rfl
  | cons e ds ih =>
    obtain ⟨p, d⟩ := e
    rw [List.cons_append, checkPlaced, checkPlaced]
    split
    · exact ih
    · rfl

theorem checkPlaced_map (p : Path) (ds : List Demand) :
    checkPlaced (ds.map (p, ·)) = (check ds).mapError (·.within p) := by
  induction ds with
  | nil => rfl
  | cons d ds ih =>
    rw [List.map_cons, checkPlaced, check]
    split
    · exact ih
    · rfl

theorem checkPlaced_of_met (h : ∀ b ∈ ds, b.2.Met) : checkPlaced ds = .ok () := by
  induction ds with
  | nil => rfl
  | cons e ds ih =>
    rw [List.forall_mem_cons] at h
    obtain ⟨p, d⟩ := e
    rw [checkPlaced, if_pos h.1, ih h.2]

theorem checkPlaced_first (hbefore : ∀ b ∈ ds, b.2.Met) (hd : ¬ d.Met) :
    checkPlaced (ds ++ (p, d) :: ds') = .error (d.fault.within p) := by
  rw [checkPlaced_append, checkPlaced_of_met hbefore]
  exact if_neg hd

end CheckPlaced

theorem foldlM_placed (language : String) {s : Schema} {visible : List String}
    (h : Shows s visible) (located : List Located) (path : Path) :
    ((located.foldlM (fun s n => (addNode language s n.node).mapError fun f =>
      match n.origin with
      | some path => f.within path
      | none => f) s).mapError (·.within path)).map (fun _ => ()) =
    checkPlaced (placedDemands visible (located.map (Located.placed path))) := by
  induction located generalizing s visible with
  | nil => rfl
  | cons n located ih =>
    have hmakes : _ = check (nodeDemands visible (n.placed path).node) :=
      addNode_makes language h n.node
    rw [List.foldlM_cons, List.map_cons, placedDemands, checkPlaced_append, checkPlaced_map,
      ← hmakes]
    cases hadd : addNode language s n.node with
    | ok t => exact ih (addNode_shows h hadd)
    | error f =>
      show Except.error (Fault.within path _) = Except.error (f.within (n.origin.getD path))
      cases n.origin with
      | none => rfl
      | some p => exact congrArg Except.error (f.within_within p path)

theorem definitions_placed (path : Path) (located : List Located) :
    (definitions (located.map (Located.placed path))).map Prod.snd =
      located.filterMap (·.node.definedName?) := by
  unfold definitions
  rw [List.filterMap_map, List.map_filterMap]
  refine List.filterMap_congr fun n _ => ?_
  show ((definitionName? n.node).map _).map Prod.snd = n.node.definedName?
  rw [definedName?_eq]
  cases definitionName? n.node <;> rfl

theorem build_placed (language : String) (path : Path)
    (hnames : ((definitions (located.map (Located.placed path))).map Prod.snd).Nodup) :
    ((build language located).mapError (·.within path)).map (fun _ => ()) =
      checkPlaced (placedDemands [] (located.map (Located.placed path))) := by
  rw [definitions_placed] at hnames
  unfold build
  rw [checkDistinct_nodup hnames fun _ _ => List.not_mem_nil]
  exact foldlM_placed language .empty located path

theorem build_twice (language : String) (path : Path) {before after : List (Path × String)}
    {name : String}
    (hnames : definitions (located.map (Located.placed path)) = before ++ (p, name) :: after)
    (hbefore : (before.map Prod.snd).Nodup) (hname : name ∈ before.map Prod.snd) :
    build language located = .error (.duplicateType name) := by
  unfold build
  rw [← definitions_placed path, hnames, List.map_append, List.map_cons,
    checkDistinct_twice hbefore (fun _ _ => List.not_mem_nil) (.inl hname)]
  rfl

/-! ## The file that is named -/

theorem Demand.root_fault (d : Demand) : d.fault.root = d.fault := by
  cases d <;> rfl

theorem Demand.names_fault (d : Demand) (p : Path) : (d.fault.within p).Names p := by
  cases d <;> exact .inr rfl

theorem Demand.fault_ne_duplicateType (d : Demand) (name : String) :
    d.fault ≠ .duplicateType name := by
  cases d <;> exact fun h => nomatch h

theorem Fault.names_duplicateType {name : String} :
    (Fault.within path (.duplicateType name)).Names p ↔ p = path := by
  constructor
  · rintro (⟨e, h⟩ | h)
    · cases h
    · exact (Fault.inFile.inj h).1.symm
  · rintro rfl
    exact .inr rfl

/-- A cause is that of the fault. -/
theorem Lies.fails (h : Lies config tree path p cause) :
    ∃ fault, compileFile config tree path = .error fault ∧ fault.root = cause ∧
      (fault.Names p ↔ p = path ∨ ∀ name, cause ≠ .duplicateType name) ∧
      ∀ name, cause = .duplicateType name → fault.Names path := by
  obtain ⟨outcome, hgathers, hyields⟩ := compileFile_gathers config tree path
  generalize compileFile config tree path = result at hyields
  cases h with
  | reading hg =>
    cases hgathers.unique hg
    have harises := hg.arises
    cases hyields with
    | broken =>
      exact ⟨_, rfl, (cause.root_within p).trans harises.root_eq,
        iff_of_true harises.names (.inr harises.ne_duplicateType),
        fun name hname => absurd hname (harises.ne_duplicateType name)⟩
  | @twice _ _ _ _ _ name hg hnames hbefore hname =>
    cases hgathers.unique hg
    cases hyields with
    | whole =>
      rw [build_twice config.language path hnames hbefore hname]
      refine ⟨_, rfl, rfl, Fault.names_duplicateType.trans (or_iff_left ?_).symm,
        fun _ _ => Fault.names_duplicateType.mpr rfl⟩
      exact fun hother => hother name rfl
  | @unmet _ _ _ _ _ d hg hdistinct hdemands hbefore hd =>
    cases hgathers.unique hg
    cases hyields with
    | @whole _ located =>
      have hbuild := build_placed config.language path hdistinct
      rw [hdemands, checkPlaced_first hbefore hd] at hbuild
      cases hresult : (build config.language located).mapError (·.within path) with
      | ok s => rw [hresult] at hbuild; cases hbuild
      | error fault =>
        rw [hresult] at hbuild
        obtain rfl : fault = d.fault.within p := Except.error.inj hbuild
        exact ⟨_, rfl, (d.fault.root_within p).trans d.root_fault,
          iff_of_true (d.names_fault p) (.inr d.fault_ne_duplicateType),
          fun name hname => absurd hname (d.fault_ne_duplicateType name)⟩

theorem exists_lies (h : compileFile config tree path = .error fault) :
    ∃ p cause, Lies config tree path p cause := by
  obtain ⟨outcome, hgathers, hyields⟩ := compileFile_gathers config tree path
  rw [h] at hyields
  generalize hresult : Except.error fault = result at hyields
  cases hyields with
  | broken => exact ⟨_, _, .reading hgathers⟩
  | @whole _ located =>
    by_cases hdistinct :
        ((definitions (located.map (Located.placed path))).map Prod.snd).Nodup
    · by_cases hmet : ∀ b ∈ placedDemands [] (located.map (Located.placed path)), b.2.Met
      · have hbuild := build_placed config.language path hdistinct
        rw [checkPlaced_of_met hmet, ← hresult] at hbuild
        cases hbuild
      · obtain ⟨before, ⟨p, d⟩, after, hdemands, hbefore, hd⟩ :=
          exists_break (P := fun ds : List (Path × Demand) => ∀ b ∈ ds, b.2.Met)
            (List.forall_mem_nil _) hmet
        refine ⟨p, _, .unmet hgathers hdistinct hdemands hbefore fun hd' => hd ?_⟩
        exact List.forall_mem_append.mpr ⟨hbefore, List.forall_mem_singleton.mpr hd'⟩
    · obtain ⟨before, ⟨p, name⟩, after, hnames, hbefore, htwice⟩ :=
        exists_break (P := fun ds : List (Path × String) => (ds.map Prod.snd).Nodup)
          List.nodup_nil hdistinct
      refine ⟨p, _, .twice hgathers hnames hbefore (by_contra fun hname => htwice ?_)⟩
      rw [List.map_append, List.map_singleton, ← List.concat_eq_append]
      exact hbefore.concat hname

/-- A file that does not compile has one cause, in the text of one file. The fault names this file,
except that the second definition of a name is always said to be in the file to be compiled. -/
theorem compileFile_names (h : compileFile config tree path = .error fault) :
    ∃ p, (∀ q cause, Lies config tree path q cause ↔ q = p ∧ cause = fault.root) ∧
      (fault.Names p ↔ p = path ∨ ∀ name, fault.root ≠ .duplicateType name) ∧
      ∀ name, fault.root = .duplicateType name → fault.Names path := by
  obtain ⟨p, cause, hlies⟩ := exists_lies h
  obtain ⟨found, hfound, rfl, hnames⟩ := hlies.fails
  cases h.symm.trans hfound
  refine ⟨p, fun q cause => ⟨fun hlies' => hlies'.unique hlies, ?_⟩, hnames⟩
  rintro ⟨rfl, rfl⟩
  exact hlies

/-! A room whose lamps want a file that is not there, and a hall whose torches are lamps that are
defined already. -/

section Lamps

def lampTree : Tree where
  files := [(["room"], Text.Utf8.encode "include 'lamps' senum Room {}"),
    (["lamps"], Text.Utf8.encode "include 'bulbs' senum Lamp {}"),
    (["hall"], Text.Utf8.encode "include 'torches' senum Hall {}"),
    (["torches"], Text.Utf8.encode "include 'flames' senum Lamp {}"),
    (["flames"], Text.Utf8.encode "senum Lamp {}")]

theorem lies_lamps :
    Lies {} lampTree ⟨"room"⟩ ⟨"/lamps"⟩ (.includeNotFound "bulbs") := by
  let library := Library.searched (.start {} lampTree ["room"])
  have hroom : lampTree.read ⟨"room"⟩ = .ok (["room"], "include 'lamps' senum Room {}") := rfl
  have hlamps : library.read "lamps" =
      .ok (⟨Location.path ["lamps"], "include 'bulbs' senum Lamp {}"⟩, library) := by rfl
  have hbulbs : library.read "bulbs" = .error (.includeNotFound "bulbs") := by rfl
  have hnodes : Idl.parse "include 'lamps' senum Room {}" =
      .ok [.inclusion "lamps", .senum "Room" []] := parse_of_include (by decide +kernel)
  have hinner : Idl.parse "include 'bulbs' senum Lamp {}" =
      .ok [.inclusion "bulbs", .senum "Lamp" []] := parse_of_include (by decide +kernel)
  have hvisit : visit ⟨"room"⟩ [Location.path ["room"]] ⟨library, [Location.path ["room"]]⟩
      "lamps" = .into _ _ ⟨library, _⟩ :=
    visit_read hlamps (by decide +kernel) (by decide +kernel) hinner
  exact .reading (.walked hroom hnodes (.inside hvisit (.stop (visit_unread hbulbs))))

theorem lies_torches : Lies {} lampTree ⟨"hall"⟩ ⟨"/torches"⟩ (.duplicateType "Lamp") := by
  let library := Library.searched (.start {} lampTree ["hall"])
  have hhall : lampTree.read ⟨"hall"⟩ = .ok (["hall"], "include 'torches' senum Hall {}") := rfl
  have htorches : library.read "torches" =
      .ok (⟨Location.path ["torches"], "include 'flames' senum Lamp {}"⟩, library) := by rfl
  have hflames : library.read "flames" =
      .ok (⟨Location.path ["flames"], "senum Lamp {}"⟩, library) := by rfl
  have hnodes : Idl.parse "include 'torches' senum Hall {}" =
      .ok [.inclusion "torches", .senum "Hall" []] := parse_of_include (by decide +kernel)
  have hinner : Idl.parse "include 'flames' senum Lamp {}" =
      .ok [.inclusion "flames", .senum "Lamp" []] := parse_of_include (by decide +kernel)
  have hinnermost : Idl.parse "senum Lamp {}" = .ok [.senum "Lamp" []] :=
    parse_of_senum (by decide +kernel)
  have hvisit : visit ⟨"hall"⟩ [Location.path ["hall"]] ⟨library, [Location.path ["hall"]]⟩
      "torches" = .into _ _ ⟨library, _⟩ :=
    visit_read htorches (by decide +kernel) (by decide +kernel) hinner
  have hvisit' : visit (Location.path ["torches"])
      [Location.path ["hall"], Location.path ["torches"]]
      ⟨library, [Location.path ["torches"], Location.path ["hall"]]⟩ "flames" =
      .into _ _ ⟨library, _⟩ :=
    visit_read hflames (by decide +kernel) (by decide +kernel) hinnermost
  have hwalks := Walks.first hvisit
    (.first hvisit' (.node (stays_senum "Lamp") .nil) (.node (stays_senum "Lamp") .nil))
    (.node (stays_senum "Hall") .nil)
  have hnames : definitions [⟨⟨"/flames"⟩, .senum "Lamp" []⟩, ⟨⟨"/torches"⟩, .senum "Lamp" []⟩,
      ⟨⟨"hall"⟩, .senum "Hall" []⟩] =
      [(⟨"/flames"⟩, "Lamp")] ++ (⟨"/torches"⟩, "Lamp") :: [(⟨"hall"⟩, "Hall")] := rfl
  exact .twice (.walked hhall hnodes hwalks) hnames (by decide) (by decide)

theorem compileFile_room : compileFile {} lampTree ⟨"room"⟩ =
    .error (.inFile ⟨"/lamps"⟩ (.includeNotFound "bulbs")) := by
  obtain ⟨fault, hfault, hroot, hnames, -⟩ := lies_lamps.fails
  rcases hnames.mpr (.inr fun _ h => nomatch h) with ⟨e, rfl⟩ | heq
  · cases hroot
  · rw [hfault, heq, hroot]

theorem compileFile_hall : compileFile {} lampTree ⟨"hall"⟩ =
    .error (.inFile ⟨"hall"⟩ (.duplicateType "Lamp")) := by
  obtain ⟨fault, hfault, hroot, -, hnames⟩ := lies_torches.fails
  rcases hnames "Lamp" rfl with ⟨e, rfl⟩ | heq
  · cases hroot
  · rw [hfault, heq, hroot]

theorem compileFile_names_room :
    compileFile {} lampTree ⟨"room"⟩ = .error (.inFile ⟨"/lamps"⟩ (.includeNotFound "bulbs")) ∧
    ∀ q cause, Lies {} lampTree ⟨"room"⟩ q cause ↔
      q = ⟨"/lamps"⟩ ∧ cause = .includeNotFound "bulbs" := by
  obtain ⟨p, hlies, -⟩ := compileFile_names compileFile_room
  obtain ⟨rfl, -⟩ := (hlies _ _).mp lies_lamps
  exact ⟨compileFile_room, hlies⟩

/-- The file that the fault names defines no lamp. -/
theorem compileFile_hall_misnamed :
    compileFile {} lampTree ⟨"hall"⟩ = .error (.inFile ⟨"hall"⟩ (.duplicateType "Lamp")) ∧
    Lies {} lampTree ⟨"hall"⟩ ⟨"/torches"⟩ (.duplicateType "Lamp") ∧
    ¬ (Fault.inFile ⟨"hall"⟩ (.duplicateType "Lamp")).Names ⟨"/torches"⟩ := by
  refine ⟨compileFile_hall, lies_torches, ?_⟩
  rintro (⟨e, h⟩ | h)
  · cases h
  · exact absurd (Fault.inFile.inj h).1 (by decide)

end Lamps

end ThriftRpc.Compile
