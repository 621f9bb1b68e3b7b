import ThriftRpc.Files.Tree
import ThriftRpc.Proofs.Except
import ThriftRpc.Proofs.Table

/-!
# Files and their names

A name that can stand in a directory is one piece of a path, and a path leads to a location of such
names (`plain_of_locate`). So the path of a location, its names between slashes, leads there
(`isFile_path`), and `./` in front of a name leads to the file of that name in the working directory
(`read_here`).
-/

namespace ThriftRpc

namespace Text

variable {sep : Char} {w : List Char}

theorem split_of_not_mem (h : sep ∉ w) : split sep w = [w] := by
  induction w with
  | nil => rfl
  | cons c w ih =>
    rw [List.mem_cons, not_or] at h
    unfold split
    rw [if_neg (Ne.symm h.1), ih h.2]

theorem split_append_sep (h : sep ∉ w) (s : List Char) :
    split sep (w ++ sep :: s) = w :: split sep s := by
  induction w with
  | nil =>
    rw [List.nil_append, split, if_pos rfl]
  | cons c w ih =>
    rw [List.mem_cons, not_or] at h
    rw [List.cons_append, split, if_neg (Ne.symm h.1), ih h.2]

/-- Pieces that were put together come apart again. -/
theorem split_intercalate (w : List Char) (ws : List (List Char)) (h : ∀ v ∈ w :: ws, sep ∉ v) :
    split sep ([sep].intercalate (w :: ws)) = w :: ws := by
  induction ws generalizing w with
  | nil => simpa [List.intercalate] using split_of_not_mem (h w List.mem_cons_self)
  | cons v ws ih =>
    rw [List.intercalate_cons_cons]
    have hrest := ih v fun u hu => h u (List.mem_cons_of_mem _ hu)
    rw [List.append_assoc, List.singleton_append, split_append_sep (h w List.mem_cons_self), hrest]

/-- No piece holds what the text was cut at. -/
theorem not_mem_of_mem_split {s : List Char} (h : w ∈ split sep s) : sep ∉ w := by
  induction s generalizing w with
  | nil =>
    obtain rfl := List.mem_singleton.mp h
    exact List.not_mem_nil
  | cons c s ih =>
    unfold split at h
    split at h
    · rcases List.mem_cons.mp h with rfl | h
      · exact List.not_mem_nil
      · exact ih h
    · next hc =>
      split at h
      · obtain rfl := List.mem_singleton.mp h
        exact fun hmem => hc (List.mem_singleton.mp hmem).symm
      · next first rest hsplit =>
        rw [hsplit] at ih
        rcases List.mem_cons.mp h with rfl | h
        · rw [List.mem_cons, not_or]
          exact ⟨Ne.symm hc, ih List.mem_cons_self⟩
        · exact ih (List.mem_cons_of_mem first h)

end Text

namespace Files

/-- What can be the name of a file or directory: a piece of a path that is no step on the way. -/
def Plain (name : String) : Prop := name ≠ "" ∧ name ≠ "." ∧ name ≠ ".." ∧ '/' ∉ name.toList

instance (name : String) : Decidable (Plain name) := inferInstanceAs (Decidable (_ ∧ _ ∧ _ ∧ _))

namespace Path

variable {name : String}

theorem pieces_of_plain (h : Plain name) : (⟨name⟩ : Path).pieces = [name] := by
  unfold pieces
  rw [Text.split_of_not_mem h.2.2.2]
  simp

theorem isAbsolute_of_plain (h : Plain name) : (⟨name⟩ : Path).isAbsolute = false := by
  unfold isAbsolute
  rw [beq_eq_false_iff_ne]
  exact fun hhead => h.2.2.2 (List.mem_of_head? hhead)

theorem ofPiece?_of_plain (h : Plain name) : Component.ofPiece? name = some (.name name) := by
  unfold Component.ofPiece?
  split
  · exact absurd rfl h.1
  · exact absurd rfl h.2.1
  · exact absurd rfl h.2.2.1
  · rfl

theorem components_of_plain (h : Plain name) : (⟨name⟩ : Path).components = [.name name] := by
  unfold components
  rw [isAbsolute_of_plain h, pieces_of_plain h]
  simp [ofPiece?_of_plain h, h.2.1]

theorem same_iff_of_plain {name' : String} (h : Plain name) (h' : Plain name') :
    (⟨name⟩ : Path).same ⟨name'⟩ = true ↔ name = name' := by
  unfold same
  rw [components_of_plain h, components_of_plain h']
  simp

theorem toList_path (l : Location) :
    (Location.path l).text.toList = '/' :: ['/'].intercalate (l.map String.toList) := by
  simp [Location.path, String.toList_intercalate]

theorem isAbsolute_path (l : Location) : (Location.path l).isAbsolute = true := by
  unfold isAbsolute
  rw [toList_path]
  rfl

theorem pieces_path {l : Location} (hl : l ≠ []) (h : ∀ n ∈ l, Plain n) :
    (Location.path l).pieces = "" :: l := by
  obtain ⟨n, l, rfl⟩ := List.exists_cons_of_ne_nil hl
  have hsplit : Text.split '/' (['/'].intercalate ((n :: l).map String.toList)) =
      (n :: l).map String.toList := by
    refine Text.split_intercalate _ _ fun v hv => ?_
    obtain ⟨m, hm, rfl⟩ := List.mem_map.mp (List.map_cons (f := String.toList) ▸ hv)
    exact (h m hm).2.2.2
  unfold pieces
  rw [toList_path, Text.split, if_pos rfl, hsplit]
  simp

theorem components_path {l : Location} (h : ∀ n ∈ l, Plain n) :
    (Location.path l).components = .root :: l.map .name := by
  unfold components
  rw [if_pos (isAbsolute_path l)]
  congr 1
  by_cases hl : l = []
  · subst hl
    decide +kernel
  · rw [pieces_path hl h]
    have hnone : Component.ofPiece? "" = none := rfl
    rw [List.filterMap_cons, hnone]
    have hall : l.filterMap Component.ofPiece? = l.filterMap fun n => some (.name n) :=
      List.filterMap_congr fun n hn => ofPiece?_of_plain (h n hn)
    rw [hall, List.filterMap_eq_map']

theorem same_path_iff {l l' : Location} (h : ∀ n ∈ l, Plain n) (h' : ∀ n ∈ l', Plain n) :
    (Location.path l).same (Location.path l') = true ↔ l = l' := by
  have hinj : Function.Injective Component.name := fun _ _ heq => Component.name.inj heq
  unfold same
  rw [components_path h, components_path h', beq_iff_eq, List.cons_inj_right,
    List.map_inj_right fun _ _ heq => hinj heq]

/-! ## Names in a directory -/

theorem join_here (h : Plain name) : (⟨"."⟩ : Path).join ⟨name⟩ = ⟨"./" ++ name⟩ := by
  have hlast : ¬ ((⟨"."⟩ : Path).text = "" ∨ (⟨"."⟩ : Path).text.toList.getLast? = some '/') := by
    decide +kernel
  unfold join
  rw [isAbsolute_of_plain h, if_neg hlast]
  rfl

theorem pieces_here (h : Plain name) : (⟨"./" ++ name⟩ : Path).pieces = [".", name] := by
  have htext : ("./" ++ name).toList = ['.'] ++ '/' :: name.toList := by simp
  unfold pieces
  rw [htext, Text.split_append_sep (by decide), Text.split_of_not_mem h.2.2.2]
  simp

theorem isAbsolute_here (name : String) : (⟨"./" ++ name⟩ : Path).isAbsolute = false := by
  simp [isAbsolute]

/-- The path of a location ends in its last name. -/
theorem getLast?_path (l : Location) (h : Plain name) :
    (Location.path (l ++ [name])).text.toList.getLast? ≠ some '/' := by
  have hends : ∃ p, (Location.path (l ++ [name])).text = p ++ name := by
    by_cases hl : l = []
    · exact ⟨"/", by simp [Location.path, hl]⟩
    · refine ⟨"/" ++ "/".intercalate l ++ "/", ?_⟩
      simp [Location.path, String.intercalate_append_of_ne_nil hl, String.append_assoc]
  have hname : name.toList ≠ [] := by simpa using h.1
  obtain ⟨p, hp⟩ := hends
  rw [hp, String.toList_append, List.getLast?_append_of_ne_nil _ hname]
  exact fun hlast => h.2.2.2 (List.mem_of_getLast? hlast)

theorem join_path {l : Location} (hl : ∀ n ∈ l, Plain n) (h : Plain name) :
    (Location.path l).join ⟨name⟩ = Location.path (l ++ [name]) := by
  have htext : (Location.path l).text ≠ "" := by simp [Location.path]
  unfold join
  rw [isAbsolute_of_plain h]
  rcases List.eq_nil_or_concat l with rfl | ⟨before, last, rfl⟩
  · rfl
  · rw [List.concat_eq_append, List.forall_mem_append] at hl
    rw [List.concat_eq_append] at htext ⊢
    have hlast := getLast?_path before (hl.2 _ (List.mem_singleton.mpr rfl))
    rw [if_neg (not_or.mpr ⟨htext, hlast⟩)]
    have htogether : "/".intercalate ((before ++ [last]) ++ [name]) =
        "/".intercalate (before ++ [last]) ++ "/" ++ "/".intercalate [name] :=
      String.intercalate_append_of_ne_nil (by simp) (by simp)
    simp only [Location.path, htogether, String.intercalate_singleton, String.append_assoc,
      Bool.false_eq_true, if_false]

end Path

namespace Tree

variable {t : Tree} {l l' : Location} {name : String}

theorem entry?_file_iff {bytes : List UInt8} :
    t.entry? l = some (.file bytes) ↔ Table.find? l t.files = some bytes := by
  unfold entry?
  cases Table.find? l t.files with
  | some found => simp
  | none =>
    simp only [reduceCtorEq, iff_false]
    split <;> simp

theorem isFile_iff {p : Path} : t.isFile p = true ↔
    ∃ l bytes, t.locate p = .ok l ∧ Table.find? l t.files = some bytes := by
  unfold isFile
  cases hlocate : t.locate p with
  | error fault => simp [Except.toOption]
  | ok l =>
    simp only [Except.toOption, Option.bind_some, Except.ok.injEq, exists_and_left, exists_eq_left',
      ← entry?_file_iff]
    cases t.entry? l with
    | none => simp
    | some e => cases e <;> simp

/-- There is a file at the end of the path. -/
def Leads (t : Tree) (p : Path) (l : Location) : Prop :=
  t.locate p = .ok l ∧ (Table.find? l t.files).isSome = true

theorem isFile_iff_leads {p : Path} : t.isFile p = true ↔ ∃ l, t.Leads p l := by
  rw [isFile_iff]
  simp only [Leads, Option.isSome_iff_exists, exists_and_left]

theorem read_eq_ok_iff {p : Path} {text : String} : t.read p = .ok (l, text) ↔
    t.locate p = .ok l ∧ Table.find? l t.files = some (Text.Utf8.encode text) := by
  constructor
  · intro h
    obtain ⟨found, hlocate, h⟩ := bind_eq_ok h
    split at h
    · next bytes hentry =>
      split at h
      · next decoded hdecode =>
        cases h
        rw [← Text.Utf8.decode_eq_ok_iff.mp hdecode]
        exact ⟨hlocate, entry?_file_iff.mp hentry⟩
      · cases h
    · cases h
    · cases h
  · rintro ⟨hlocate, hfind⟩
    have hentry := entry?_file_iff.mpr hfind
    unfold read
    rw [hlocate]
    simp only [bind, Except.bind, hentry, Text.Utf8.decode_encode]
    rfl

theorem step_of_plain (hname : Plain name) (h : t.step l name = .ok l') : l' = l ++ [name] := by
  unfold step at h
  split at h
  · cases h
  · cases h
  · rw [if_neg (not_or.mpr ⟨hname.1, hname.2.1⟩), if_neg hname.2.2.1] at h
    split at h
    · cases h
    · split at h
      · exact (Except.ok.inj h).symm
      · cases h

theorem foldlM_step {names : List String} (hnames : ∀ n ∈ names, Plain n)
    (h : names.foldlM t.step l = .ok l') : l' = l ++ names := by
  induction names generalizing l with
  | nil =>
    cases h
    rw [List.append_nil]
  | cons n names ih =>
    rw [List.forall_mem_cons] at hnames
    rw [List.foldlM_cons] at h
    obtain ⟨next, hnext, h⟩ := bind_eq_ok h
    rw [ih hnames.2 h, step_of_plain hnames.1 hnext, List.append_assoc, List.singleton_append]

theorem step_of_stay {piece : String} (hstay : piece = "" ∨ piece = ".")
    (h : t.step l piece = .ok l') : l' = l := by
  unfold step at h
  split at h
  · cases h
  · cases h
  · rw [if_pos hstay] at h
    exact (Except.ok.inj h).symm

/-- A path of plain names leads to the location with these names or nowhere. -/
theorem locate_ahead {p : Path} {piece : String} {names : List String}
    (hpieces : p.pieces = piece :: names) (hstay : piece = "" ∨ piece = ".")
    (hnames : ∀ n ∈ names, Plain n) (h : t.locate p = .ok l) :
    l = (if p.isAbsolute then [] else t.working) ++ names := by
  unfold locate at h
  rw [hpieces] at h
  split at h
  · cases h
  split at h
  · cases h
  split at h
  · cases h
  rw [List.foldlM_cons] at h
  obtain ⟨start, hstart, h⟩ := bind_eq_ok h
  rw [foldlM_step hnames h, step_of_stay hstay hstart]

theorem isFile_path (hl : l ≠ []) (hnames : ∀ n ∈ l, Plain n)
    (h : t.isFile (Location.path l) = true) : (Table.find? l t.files).isSome = true := by
  obtain ⟨found, bytes, hlocate, hfind⟩ := isFile_iff.mp h
  have hfound := locate_ahead (Path.pieces_path hl hnames) (.inl rfl) hnames hlocate
  rw [Path.isAbsolute_path, if_pos rfl, List.nil_append] at hfound
  rw [← hfound, hfind]
  rfl

/-- A step goes to a location of names, or stays, or goes up. -/
theorem plain_of_step {piece : String} (hl : ∀ n ∈ l, Plain n) (hpiece : '/' ∉ piece.toList)
    (h : t.step l piece = .ok l') : ∀ n ∈ l', Plain n := by
  unfold step at h
  split at h
  · cases h
  · cases h
  split at h
  · cases h
    exact hl
  next hstay =>
  split at h
  · cases h
    exact fun n hn => hl n (List.dropLast_subset l hn)
  next hup =>
  split at h
  · cases h
  split at h
  · cases h
    rw [not_or] at hstay
    exact List.forall_mem_append.mpr
      ⟨hl, List.forall_mem_singleton.mpr ⟨hstay.1, hstay.2, hup, hpiece⟩⟩
  · cases h

theorem plain_of_locate {p : Path} (hworking : ∀ n ∈ t.working, Plain n)
    (h : t.locate p = .ok l) : ∀ n ∈ l, Plain n := by
  have hpieces : ∀ piece ∈ p.pieces, '/' ∉ piece.toList := by
    intro piece hpiece
    obtain ⟨w, hw, rfl⟩ := List.mem_map.mp hpiece
    rw [String.toList_ofList]
    exact Text.not_mem_of_mem_split hw
  have hstart : ∀ n ∈ if p.isAbsolute then [] else t.working, Plain n := by
    split
    · exact List.forall_mem_nil _
    · exact hworking
  unfold locate at h
  split at h
  · cases h
  split at h
  · cases h
  split at h
  · cases h
  refine foldlM_eq_ok (fun _ l => ∀ n ∈ l, Plain n) hstart ?_ h
  intro before piece after l l' hsplit hl hstep
  exact plain_of_step hl (hpieces piece (by rw [hsplit]; simp)) hstep

/-! ## The working directory -/

/-- The working directory exists and holds these texts, each in a file of its own, and no other
files. -/
structure Holds (t : Tree) (texts : Table String String) : Prop where
  working : t.entry? t.working = some .directory
  plain : ∀ n ∈ t.working, Plain n
  named : ∀ n ∈ texts.map Prod.fst, Plain n ∧ n.utf8ByteSize ≤ maxName ∧ '\x00' ∉ n.toList
  distinct : (texts.map Prod.fst).Nodup
  files : ∀ name, Table.find? (t.working ++ [name]) t.files =
    (Table.find? name texts).map Text.Utf8.encode

namespace Holds

variable {texts : Table String String} {text : String}

/-- No more texts than files. -/
theorem length_le (h : t.Holds texts) : texts.length ≤ t.files.length := by
  have hinj : Function.Injective fun name : String => t.working ++ [name] := fun a b heq => by
    simpa using heq
  have hsub : (texts.map Prod.fst).map (fun name => t.working ++ [name]) ⊆
      t.files.map Prod.fst := by
    intro l hl
    obtain ⟨name, hname, rfl⟩ := List.mem_map.mp hl
    refine Table.isSome_find?.mp ?_
    rw [h.files, Option.isSome_map]
    exact Table.isSome_find?.mpr hname
  have hle := (List.subperm_of_subset (h.distinct.map hinj) hsub).length_le
  simpa using hle

theorem locate_here (h : t.Holds texts) (hfind : Table.find? name texts = some text) :
    t.locate ⟨"./" ++ name⟩ = .ok (t.working ++ [name]) := by
  obtain ⟨hplain, hsize, hnul⟩ :=
    h.named name (Table.isSome_find?.mp (by rw [hfind]; rfl))
  have hlength : ¬ maxPath < ("./" ++ name).utf8ByteSize := by
    have hdot : "./".utf8ByteSize = 2 := by decide +kernel
    rw [String.utf8ByteSize_append, hdot]
    unfold maxName at hsize
    unfold maxPath
    omega
  have hhere : t.step t.working "." = .ok t.working := by
    unfold step
    rw [h.working]
    rfl
  have hentry : (t.entry? (t.working ++ [name])).isSome = true := by
    rw [entry?_file_iff.mpr ((h.files name).trans (congrArg _ hfind))]
    rfl
  have hstep : t.step t.working name = .ok (t.working ++ [name]) := by
    unfold step
    rw [h.working]
    simp only [hplain.1, hplain.2.1, hplain.2.2.1, or_self, if_false, Nat.not_lt.mpr hsize, hentry,
      if_true]
  unfold locate
  rw [if_neg (by simpa using hnul), if_neg hlength, if_neg (by simp), Path.pieces_here hplain,
    Path.isAbsolute_here, if_neg (by decide)]
  simp only [List.foldlM_cons, List.foldlM_nil, hhere, hstep, bind, Except.bind, pure, Except.pure]

theorem isFile_here (h : t.Holds texts) (hplain : Plain name) :
    t.isFile ⟨"./" ++ name⟩ = (Table.find? name texts).isSome := by
  rw [Bool.eq_iff_iff, isFile_iff]
  constructor
  · rintro ⟨l, bytes, hlocate, hfind⟩
    have hl := locate_ahead (Path.pieces_here hplain) (.inr rfl)
      (List.forall_mem_singleton.mpr hplain) hlocate
    rw [Path.isAbsolute_here, if_neg (by decide)] at hl
    rw [hl, h.files] at hfind
    rw [← Option.isSome_map, hfind]
    rfl
  · intro hsome
    obtain ⟨text, hfind⟩ := Option.isSome_iff_exists.mp hsome
    exact ⟨_, _, h.locate_here hfind, (h.files name).trans (congrArg _ hfind)⟩

theorem read_of_locate (h : t.Holds texts) (hfind : Table.find? name texts = some text) {p : Path}
    (hlocate : t.locate p = .ok (t.working ++ [name])) :
    t.read p = .ok (t.working ++ [name], text) :=
  read_eq_ok_iff.mpr ⟨hlocate, (h.files name).trans (congrArg _ hfind)⟩

theorem read_here (h : t.Holds texts) (hfind : Table.find? name texts = some text) :
    t.read ⟨"./" ++ name⟩ = .ok (t.working ++ [name], text) :=
  h.read_of_locate hfind (h.locate_here hfind)

end Holds

end Tree

end Files

end ThriftRpc
