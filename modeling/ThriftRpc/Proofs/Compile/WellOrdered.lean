import ThriftRpc.Proofs.Compile.Closed
import ThriftRpc.Proofs.Compile.Demands
import ThriftRpc.Proofs.Compile.Expansion

/-!
# Which programs compile

A program without includes compiles if and only if it is well ordered; otherwise the fault is that
of a name that is defined twice, or else of the first demand that is not met (`compiles_iff`). Each
function of the compiler is shown to make the demands that are made of its part (`Makes`), the
tables of the schema standing for the names that came before (`Shows`).
-/

namespace ThriftRpc.Compile

open Files (Path)
open Idl (Field Function Node)

variable {α β : Type} {ds ds' : List Demand} {m : Except Fault α}

/-- The fault of the first demand that is not met. -/
def check : List Demand → Except Fault Unit
  | [] => .ok ()
  | d :: ds => if d.Met then check ds else .error d.fault

theorem check_append (ds ds' : List Demand) :
    check (ds ++ ds') = check ds >>= fun _ => check ds' := by
  induction ds with
  | nil => rfl
  | cons d ds ih =>
    rw [List.cons_append, check, check]
    split
    · exact ih
    · rfl

theorem check_of_met (h : ∀ d ∈ ds, d.Met) : check ds = .ok () := by
  induction ds with
  | nil => rfl
  | cons d ds ih =>
    rw [List.forall_mem_cons] at h
    unfold check
    rw [if_pos h.1, ih h.2]

theorem check_eq_ok_iff : check ds = .ok () ↔ ∀ d ∈ ds, d.Met := by
  refine ⟨fun h => ?_, check_of_met⟩
  induction ds with
  | nil => exact List.forall_mem_nil _
  | cons d ds ih =>
    unfold check at h
    split at h
    · next hd => exact List.forall_mem_cons.mpr ⟨hd, ih h⟩
    · cases h

theorem check_first {d : Demand} (hbefore : ∀ b ∈ ds, b.Met) (hd : ¬ d.Met) :
    check (ds ++ d :: ds') = .error d.fault := by
  rw [check_append, check_of_met hbefore]
  show (if d.Met then check ds' else .error d.fault) = _
  rw [if_neg hd]

/-- The step fails as the first demand that is not met says, and succeeds if there is none. -/
def Makes (ds : List Demand) (m : Except Fault α) : Prop := m.map (fun _ => ()) = check ds

namespace Makes

theorem of_ok {a : α} (h : m = .ok a) : Makes [] m := h ▸ rfl

theorem bind {k : α → Except Fault β} (h : Makes ds m) (hk : ∀ a, m = .ok a → Makes ds' (k a)) :
    Makes (ds ++ ds') (m >>= k) := by
  unfold Makes at h ⊢
  rw [check_append, ← h]
  cases m with
  | error fault => rfl
  | ok a => exact hk a rfl

theorem map (f : α → β) (h : Makes ds m) : Makes ds (f <$> m) := by
  unfold Makes at h ⊢
  rw [← h]
  cases m <;> rfl

/-- What is done with the answer makes no demands. -/
theorem andThen {k : α → Except Fault β} (h : Makes ds m) (hk : ∀ a, ∃ b, k a = .ok b) :
    Makes ds (m >>= k) := by
  have hbind : Makes (ds ++ []) (m >>= k) := h.bind fun a _ => (hk a).elim fun b hb => .of_ok hb
  rwa [List.append_nil] at hbind

theorem cons {d : Demand} (hm : d.Met → Makes ds m) (hfault : ¬ d.Met → m = .error d.fault) :
    Makes (d :: ds) m := by
  unfold Makes check
  split
  · next hd => exact hm hd
  · next hd => rw [hfault hd]; rfl

theorem mapM {as : List α} {f : α → Except Fault β} {demands : α → List Demand}
    (h : ∀ a ∈ as, Makes (demands a) (f a)) : Makes (as.flatMap demands) (as.mapM f) := by
  induction as with
  | nil => exact .of_ok rfl
  | cons a as ih =>
    rw [List.forall_mem_cons] at h
    rw [List.flatMap_cons, List.mapM_cons]
    exact h.1.bind fun b _ => (ih h.2).andThen fun bs => ⟨b :: bs, rfl⟩

end Makes

/-! ## Names, types and fields -/

/-- The types of the schema are those in `visible`. -/
def Shows (s : Schema) (visible : List String) : Prop :=
  ∀ name, (lookupName? s name).isSome = true ↔ name ∈ visible

variable {s t : Schema} {visible : List String}

theorem isSome_lookupName? {name : String} : (lookupName? s name).isSome = true ↔
    name ∈ s.typedefs.map Prod.fst ∨ name ∈ s.structs.map Prod.fst ∨
      name ∈ s.exceptions.map Prod.fst ∨ name ∈ s.enums.map Prod.fst := by
  rw [← isSome_lookup, ← Table.isSome_find?]
  unfold lookupName?
  cases s.typedefs.find? name <;> cases s.lookup name <;> simp

/-- More types are shown. -/
theorem Shows.grow (h : Shows s visible) {names : List String}
    (hiff : ∀ k, (lookupName? t k).isSome = true ↔ (lookupName? s k).isSome = true ∨ k ∈ names) :
    Shows t (visible ++ names) := fun k => by
  rw [hiff, h k, List.mem_append]

theorem resolveName_makes (h : Shows s visible) (name : String) :
    Makes [.known name visible] (resolveName s name) := by
  have hnone {n : String} (hn : n ∉ visible) : lookupName? s n = none := by
    rw [← Option.not_isSome_iff_eq_none, h n]
    exact hn
  refine .cons (fun hknown => ?_) fun hunknown => ?_
  · unfold resolveName
    rcases known_iff.mp hknown with hwhole | ⟨hdot, hshort⟩
    · obtain ⟨ty, hty⟩ := Option.isSome_iff_exists.mp ((h name).mpr hwhole)
      rw [hty]
      exact .of_ok rfl
    · obtain ⟨ty, hty⟩ := Option.isSome_iff_exists.mp ((h _).mpr hshort)
      rw [if_pos hdot, hty]
      cases lookupName? s name <;> exact .of_ok rfl
  · unfold resolveName
    have hwhole : name ∉ visible := fun hmem => hunknown (.inl hmem)
    rw [hnone hwhole]
    by_cases hdot : name.toList.contains '.' = true
    · rw [if_pos hdot, hnone fun hmem => hunknown (known_iff.mpr (.inr ⟨hdot, hmem⟩))]
      rfl
    · rw [if_neg hdot]
      rfl

theorem resolveType_makes (h : Shows s visible) (ty : Ty) :
    Makes (typeDemands visible ty) (resolveType s ty) := by
  induction ty with
  | prim p => exact .of_ok rfl
  | named name => exact resolveName_makes h name
  | list elem ih => exact ih.map _
  | set elem ih => exact ih.map _
  | map key value ihk ihv =>
    have hnames : typeDemands visible (.map key value) =
        typeDemands visible key ++ typeDemands visible value := List.map_append
    rw [hnames]
    exact ihk.bind fun k _ => ihv.andThen fun v => ⟨.map k v, rfl⟩

theorem assignIndices_makes (owner : String) (before : List (Int × String)) (position : Nat)
    (fields : List Field) {taken : List (Int × String)} (htaken : ∀ e, e ∈ taken ↔ e ∈ before) :
    Makes (placeDemands owner before position fields)
      (assignIndices owner taken position fields) := by
  -- The two lists grow at different ends, so they are compared by their members alone.
  induction fields generalizing before position taken with
  | nil => exact .of_ok rfl
  | cons f fields ih =>
    have hindices (index : Int) : index ∈ taken.map Prod.fst ↔ index ∈ before.map Prod.fst := by
      simp only [List.mem_map, htaken]
    have hnames (name : String) : name ∈ taken.map Prod.snd ↔ name ∈ before.map Prod.snd := by
      simp only [List.mem_map, htaken]
    unfold assignIndices
    rw [placeDemands, wantedIndex_eq]
    generalize indexAt position f = index
    have hrange : (Demand.range owner f.name index).Met ↔ ¬ (index < -0x8000 ∨ 0x7FFF < index) := by
      show _ ∧ _ ↔ _
      omega
    refine .cons (fun hmet => ?_) fun hnot => if_pos (not_not.mp (hrange.not.mp hnot))
    rw [if_neg (hrange.mp hmet)]
    refine .cons (fun hmet => ?_) fun hnot => if_pos ((hindices index).mpr (not_not.mp hnot))
    rw [if_neg fun hmem => hmet ((hindices index).mp hmem)]
    refine .cons (fun hmet => ?_) fun hnot => if_pos ((hnames f.name).mpr (not_not.mp hnot))
    rw [if_neg fun hmem => hmet ((hnames f.name).mp hmem)]
    refine (ih _ _ fun e => ?_).andThen fun rest => ⟨_, rfl⟩
    rw [List.mem_cons, List.mem_append, List.mem_singleton, htaken, or_comm]

theorem fieldDefs_makes (h : Shows s visible) (owner : String) (fields : List Field) :
    Makes (fieldsDemands visible owner fields) (fieldDefs s owner fields) := by
  refine (assignIndices_makes owner [] 0 fields fun _ => Iff.rfl).bind fun pairs hpairs => ?_
  have hfields : fields = pairs.map Prod.snd := by
    obtain ⟨hdeclared, -⟩ := assignIndices_ok hpairs
    have hmap := map_eq_map_of_forall₂ (f := Prod.fst) (g := Prod.snd)
      (fun _ _ hp => hp.2.symm) hdeclared
    rwa [List.zipIdx_map_fst] at hmap
  rw [hfields, List.flatMap_map]
  exact .mapM fun p _ => (resolveType_makes h p.2.type).andThen fun ty => ⟨_, rfl⟩

theorem functionDef_makes (h : Shows s visible) (service : String) (f : Function) :
    Makes (functionDemands visible service f) (functionDef s service f) := by
  have hreturns : Makes (f.returns.toList.flatMap (typeDemands visible))
      (f.returns.mapM (resolveType s)) := by
    cases f.returns with
    | none => exact .of_ok rfl
    | some ty =>
      rw [Option.toList_some, List.flatMap_singleton]
      exact (resolveType_makes h ty).map some
  refine hreturns.bind fun returns _ => ?_
  refine (fieldDefs_makes h _ f.arguments).bind fun arguments _ => ?_
  exact (fieldDefs_makes h _ f.throws).andThen fun throws => ⟨_, rfl⟩

/-! ## Definitions -/

theorem Shows.empty : Shows {} [] := fun _ => iff_of_false (by rintro ⟨⟩) List.not_mem_nil

theorem mem_keys_insert {name k : String} {v : α} {table : Table String α} :
    k ∈ (table.insert name v).map Prod.fst ↔ k ∈ table.map Prod.fst ∨ k = name := by
  rw [Table.keys_insert]
  split
  · next hmem =>
    constructor
    · exact .inl
    · rintro (h | rfl)
      · exact h
      · exact hmem
  · rw [List.mem_append, List.mem_singleton]

theorem Shows.addTypedef (h : Shows s visible) (name : String) (target : Ty) :
    Shows { s with typedefs := s.typedefs.insert name target } (visible ++ [name]) :=
  h.grow fun k => by
    rw [isSome_lookupName?, isSome_lookupName?, mem_keys_insert, List.mem_singleton]
    tauto

theorem Shows.addStruct (h : Shows s visible) (name : String) (d : StructDef) :
    Shows { s with structs := s.structs.insert name d } (visible ++ [name]) :=
  h.grow fun k => by
    rw [isSome_lookupName?, isSome_lookupName?, mem_keys_insert, List.mem_singleton]
    tauto

theorem Shows.addException (h : Shows s visible) (name : String) (d : StructDef) :
    Shows { s with exceptions := s.exceptions.insert name d } (visible ++ [name]) :=
  h.grow fun k => by
    rw [isSome_lookupName?, isSome_lookupName?, mem_keys_insert, List.mem_singleton]
    tauto

theorem Shows.addEnum (h : Shows s visible) (name : String) (d : EnumDef) :
    Shows { s with enums := s.enums.insert name d } (visible ++ [name]) :=
  h.grow fun k => by
    rw [isSome_lookupName?, isSome_lookupName?, mem_keys_insert, List.mem_singleton]
    tauto

/-- A node that defines no type shows nothing new. -/
theorem Shows.same (h : Shows s visible) (htypedefs : t.typedefs = s.typedefs)
    (hstructs : t.structs = s.structs) (hexceptions : t.exceptions = s.exceptions)
    (henums : t.enums = s.enums) : Shows t (visible ++ []) :=
  h.grow fun k => by
    rw [isSome_lookupName?, isSome_lookupName?, htypedefs, hstructs, hexceptions, henums]
    simp

theorem addNode_makes (language : String) (h : Shows s visible) (n : Node) :
    Makes (nodeDemands visible n) (addNode language s n) := by
  cases n with
  | comment text => exact .of_ok rfl
  | scope lang name =>
    rw [addNode]
    split <;> exact .of_ok rfl
  | inclusion path => exact .of_ok rfl
  | constant name type value => exact (resolveType_makes h type).andThen fun ty => ⟨_, rfl⟩
  | typedef name target => exact (resolveType_makes h target).andThen fun ty => ⟨_, rfl⟩
  | enum name members => exact .of_ok rfl
  | senum name values => exact .of_ok rfl
  | struct kind name fields =>
    exact (fieldDefs_makes (h.addStruct name _) name fields).andThen fun defs => ⟨_, rfl⟩
  | exception name fields =>
    exact (fieldDefs_makes (h.addException name _) name fields).andThen fun defs => ⟨_, rfl⟩
  | service name parent functions =>
    exact (Makes.mapM fun f _ => functionDef_makes h name f).andThen fun defs => ⟨_, rfl⟩

theorem addNode_shows {language : String} (h : Shows s visible) {n : Node}
    (hadd : addNode language s n = .ok t) : Shows t (visible ++ (typeName? n).toList) := by
  cases n with
  | comment text => cases hadd; exact h.same rfl rfl rfl rfl
  | scope lang name =>
    rw [addNode] at hadd
    split at hadd
    · cases hadd; exact h.same rfl rfl rfl rfl
    · cases hadd; exact h.same rfl rfl rfl rfl
  | inclusion path => cases hadd; exact h.same rfl rfl rfl rfl
  | constant name type value =>
    obtain ⟨ty, -, hadd⟩ := bind_eq_ok hadd
    cases hadd
    exact h.same rfl rfl rfl rfl
  | typedef name target =>
    obtain ⟨ty, -, hadd⟩ := bind_eq_ok hadd
    cases hadd
    exact h.addTypedef name ty
  | enum name members => cases hadd; exact h.addEnum name _
  | senum name values => cases hadd; exact h.addTypedef name _
  | struct kind name fields =>
    obtain ⟨defs, -, hadd⟩ := bind_eq_ok hadd
    cases hadd
    exact h.addStruct name _
  | exception name fields =>
    obtain ⟨defs, -, hadd⟩ := bind_eq_ok hadd
    cases hadd
    exact h.addException name _
  | service name parent functions =>
    obtain ⟨defs, -, hadd⟩ := bind_eq_ok hadd
    cases hadd
    exact h.same rfl rfl rfl rfl

/-- What is visible grows by the type that each node defines. -/
theorem foldlM_makes (language : String) (h : Shows s visible) (nodes : List Node) :
    Makes (demands visible nodes) (nodes.foldlM (addNode language) s) := by
  induction nodes generalizing s visible with
  | nil => exact .of_ok rfl
  | cons n nodes ih =>
    rw [List.foldlM_cons]
    exact (addNode_makes language h n).bind fun t ht => ih (addNode_shows h ht)

/-! ## Programs -/

theorem checkDistinct_nodup {names seen : List String} (hnames : names.Nodup)
    (hseen : ∀ name ∈ names, name ∉ seen) : checkDistinct seen names = .ok () := by
  induction names generalizing seen with
  | nil => rfl
  | cons name names ih =>
    rw [List.nodup_cons] at hnames
    rw [List.forall_mem_cons] at hseen
    unfold checkDistinct
    rw [if_neg hseen.1]
    refine ih hnames.2 fun n hn => ?_
    rw [List.mem_cons, not_or]
    exact ⟨fun heq => hnames.1 (heq ▸ hn), hseen.2 n hn⟩

theorem checkDistinct_twice {before after seen : List String} {name : String}
    (hbefore : before.Nodup) (hseen : ∀ n ∈ before, n ∉ seen) (hname : name ∈ before ∨ name ∈ seen) :
    checkDistinct seen (before ++ name :: after) = .error (.duplicateType name) := by
  induction before generalizing seen with
  | nil =>
    rw [List.nil_append]
    unfold checkDistinct
    rw [if_pos (hname.resolve_left List.not_mem_nil)]
  | cons n before ih =>
    rw [List.nodup_cons] at hbefore
    rw [List.forall_mem_cons] at hseen
    rw [List.cons_append]
    unfold checkDistinct
    rw [if_neg hseen.1]
    refine ih hbefore.2 (fun m hm => ?_) ?_
    · rw [List.mem_cons, not_or]
      exact ⟨fun heq => hbefore.1 (heq ▸ hm), hseen.2 m hm⟩
    · rw [List.mem_cons]
      rw [List.mem_cons] at hname
      tauto

section Compile

variable {config : Config} {library : Library} {root : Option Path} {nodes : List Node}

theorem expand_of_stays (hnodes : ∀ n ∈ nodes, Stays n) :
    expand library root nodes = .ok (nodes.map (⟨none, ·⟩)) := by
  have hrun (depth : Nat) (st : Expansion) :
      Expanding.nodesWithin (depth + 1) none root.toList nodes st =
        .ok (nodes.map (⟨none, ·⟩), st) := by
    induction nodes with
    | nil => rfl
    | cons n nodes ih =>
      rw [List.forall_mem_cons] at hnodes
      exact Expanding.nodesWithin_cons_ok (Expanding.part_of_stays hnodes.1) (ih hnodes.2)
  rw [expand_run, hrun]
  rfl

theorem compile_of_stays (hnodes : ∀ n ∈ nodes, Stays n) :
    compile config library root nodes = (do
      checkDistinct [] (nodes.filterMap definitionName?)
      nodes.foldlM (addNode config.language) {}) := by
  unfold compile
  rw [expand_of_stays hnodes]
  show build config.language (nodes.map (⟨none, ·⟩)) = _
  unfold build
  rw [List.filterMap_map, List.foldlM_map, ← funext definedName?_eq]
  congr 1
  funext _
  congr 1
  funext s n
  show (addNode config.language s n).mapError (fun f => f) = _
  cases addNode config.language s n <;> rfl

theorem compile_makes (config : Config) (library : Library) (root : Option Path)
    (hnodes : ∀ n ∈ nodes, Stays n)
    (hnames : (nodes.filterMap definitionName?).Nodup) :
    Makes (demands [] nodes) (compile config library root nodes) := by
  rw [compile_of_stays hnodes, checkDistinct_nodup hnames fun _ _ => List.not_mem_nil]
  exact foldlM_makes config.language .empty nodes

theorem exists_compile_iff (config : Config) (library : Library) (root : Option Path)
    (hnodes : ∀ n ∈ nodes, Stays n) :
    (∃ s, compile config library root nodes = .ok s) ↔ WellOrdered nodes := by
  rw [wellOrdered_iff]
  constructor
  · rintro ⟨s, hs⟩
    have hnames : (nodes.filterMap definitionName?).Nodup := by
      rw [compile_of_stays hnodes] at hs
      obtain ⟨⟨⟩, hdistinct, -⟩ := bind_eq_ok hs
      exact (checkDistinct_ok hdistinct).1
    have hmakes := compile_makes config library root hnodes hnames
    rw [hs] at hmakes
    exact ⟨hnames, check_eq_ok_iff.mp hmakes.symm⟩
  · rintro ⟨hnames, hmet⟩
    have hmakes := compile_makes config library root hnodes hnames
    unfold Makes at hmakes
    rw [check_of_met hmet] at hmakes
    obtain ⟨s, hs, -⟩ := map_eq_ok hmakes
    exact ⟨s, hs⟩

/-- The first name that is defined twice comes before all demands. -/
theorem compile_twice (config : Config) (library : Library) (root : Option Path)
    (hnodes : ∀ n ∈ nodes, Stays n) {before after : List String} {name : String}
    (hnames : nodes.filterMap definitionName? = before ++ name :: after) (hbefore : before.Nodup)
    (hname : name ∈ before) :
    compile config library root nodes = .error (.duplicateType name) := by
  rw [compile_of_stays hnodes, hnames,
    checkDistinct_twice hbefore (fun _ _ => List.not_mem_nil) (.inl hname)]
  rfl

theorem compile_unmet (config : Config) (library : Library) (root : Option Path)
    (hnodes : ∀ n ∈ nodes, Stays n) (hnames : (nodes.filterMap definitionName?).Nodup)
    {before after : List Demand} {d : Demand} (hdemands : demands [] nodes = before ++ d :: after)
    (hbefore : ∀ b ∈ before, b.Met) (hd : ¬ d.Met) :
    compile config library root nodes = .error d.fault := by
  have hmakes := compile_makes config library root hnodes hnames
  unfold Makes at hmakes
  rw [hdemands, check_first hbefore hd] at hmakes
  cases hcompile : compile config library root nodes with
  | ok s => rw [hcompile] at hmakes; cases hmakes
  | error fault =>
    rw [hcompile] at hmakes
    exact congrArg Except.error (Except.error.inj hmakes)

/-- A program without includes compiles if and only if it is well ordered. Otherwise its fault is
that of the first name that is defined twice, or else of the first demand that is not met. -/
theorem compiles_iff (config : Config) (library : Library) (root : Option Path)
    (hnodes : ∀ n ∈ nodes, Stays n) :
    ((∃ s, compile config library root nodes = .ok s) ↔ WellOrdered nodes) ∧
    (∀ before name after, nodes.filterMap definitionName? = before ++ name :: after →
      before.Nodup → name ∈ before →
      compile config library root nodes = .error (.duplicateType name)) ∧
    ((nodes.filterMap definitionName?).Nodup → ∀ before d after,
      demands [] nodes = before ++ d :: after → (∀ b ∈ before, b.Met) → ¬ d.Met →
      compile config library root nodes = .error d.fault) :=
  ⟨exists_compile_iff config library root hnodes,
    fun _ _ _ => compile_twice config library root hnodes,
    fun hnames _ _ _ => compile_unmet config library root hnodes hnames⟩

end Compile

/-- A struct of two fields. The index of the second is not written. -/
def pairProgram (index : Option Int64) (second : String) : List Node :=
  [.struct .struct "Pair"
    [⟨index, none, .prim .i32, "x", none⟩, ⟨none, none, .prim .i32, second, none⟩]]

/-- A program compiles, not backwards and not twice over. Two fields without indices are numbered
apart; an index that is written may be neither that of the other field nor out of range. -/
theorem compiles_iff_tree :
    (∀ n ∈ treeProgram, Stays n) ∧
    (∃ s, compile {} (.listed []) none treeProgram = .ok s) ∧
    compile {} (.listed []) none treeProgram.reverse = .error (.unknownType "Forest") ∧
    compile {} (.listed []) none (treeProgram ++ treeProgram) = .error (.duplicateType "Tree") ∧
    (∃ s, compile {} (.listed []) none (pairProgram none "y") = .ok s) ∧
    compile {} (.listed []) none (pairProgram (some 2) "y") = .error (.duplicateIndex "Pair" 2) ∧
    compile {} (.listed []) none (pairProgram none "x") = .error (.duplicateName "Pair" "x") ∧
    compile {} (.listed []) none (pairProgram (some 40000) "y") =
      .error (.indexRange "Pair" "x" 40000) := by
  have htree : ∀ n ∈ treeProgram, Stays n := by
    simp [treeProgram, Stays]
  have hback : ∀ n ∈ treeProgram.reverse, Stays n := fun n hn => htree n (List.mem_reverse.mp hn)
  have htwice : ∀ n ∈ treeProgram ++ treeProgram, Stays n :=
    List.forall_mem_append.mpr ⟨htree, htree⟩
  have hpair (index : Option Int64) (second : String) :
      ∀ n ∈ pairProgram index second, Stays n := by
    simp [pairProgram, Stays]
  have hordered : WellOrdered treeProgram := wellOrdered_iff.mpr (by decide +kernel)
  have hnumbered : WellOrdered (pairProgram none "y") := wellOrdered_iff.mpr (by decide +kernel)
  refine ⟨htree, (compiles_iff {} (.listed []) none htree).1.mpr hordered, ?_, ?_,
    (compiles_iff {} (.listed []) none (hpair _ _)).1.mpr hnumbered, ?_, ?_, ?_⟩
  · have hforest : demands [] treeProgram.reverse = [] ++ .known "Forest" [] ::
        (demands [] treeProgram.reverse).tail := rfl
    exact (compiles_iff {} (.listed []) none hback).2.2 (by decide) [] _ _ hforest
      (List.forall_mem_nil _) (by decide +kernel)
  · exact (compiles_iff {} (.listed []) none htwice).2.1 ["Tree", "Forest", "Missing", "Garden"]
      "Tree" ["Forest", "Missing", "Garden"] rfl (by decide) (by decide)
  · have hindex : demands [] (pairProgram (some 2) "y") =
        [.range "Pair" "x" 2, .freshIndex "Pair" 2 [], .freshName "Pair" "x" [],
          .range "Pair" "y" 2] ++ .freshIndex "Pair" 2 [2] :: [.freshName "Pair" "y" ["x"]] := rfl
    exact (compiles_iff {} (.listed []) none (hpair _ _)).2.2 (by decide) _ _ _ hindex
      (by decide +kernel) (by decide +kernel)
  · have hname : demands [] (pairProgram none "x") =
        [.range "Pair" "x" 1, .freshIndex "Pair" 1 [], .freshName "Pair" "x" [],
          .range "Pair" "x" 2, .freshIndex "Pair" 2 [1]] ++ .freshName "Pair" "x" ["x"] :: [] := rfl
    exact (compiles_iff {} (.listed []) none (hpair _ _)).2.2 (by decide) _ _ _ hname
      (by decide +kernel) (by decide +kernel)
  · have hrange : demands [] (pairProgram (some 40000) "y") = [] ++ .range "Pair" "x" 40000 ::
        (demands [] (pairProgram (some 40000) "y")).tail := rfl
    exact (compiles_iff {} (.listed []) none (hpair _ _)).2.2 (by decide) _ _ _ hrange
      (List.forall_mem_nil _) (by decide +kernel)

end ThriftRpc.Compile
