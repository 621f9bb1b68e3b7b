import ThriftRpc.Proofs.Idl.Definition
import ThriftRpc.Proofs.Idl.Writing

/-!
# Reading a written text back

Whatever way a list of nodes is written in, parsing the text gives those nodes.
-/

namespace ThriftRpc.Idl

open Grammar
open Text (Cursor isBlank)

namespace Parser

variable {K : Set (Memos → Prop)} {src : List Char} {b : Nat} {t : Token} {us ts : List Token}

theorem skipBlanks_reads (hts : ∀ t ∈ ts.head?, t.opens = true) :
    Reads K (At src b ts) skipBlanks () (Facing src b ts) := by
  refine Reads.of_rest fun c hc => Reads.advance _ fun c₀ hc₀ => ?_
  subst hc₀
  cases ts with
  | nil =>
    have hall := takeWhile_append hc.laid.blanks (s := []) (by simp)
    rw [List.append_nil] at hall
    rw [hall]
    exact hc.over_blanks
  | cons t ts =>
    obtain ⟨gap, s, hrest, hgap, hlaid⟩ := hc.laid.split
    rw [Gap, if_pos (hts t rfl)] at hgap
    have htake : (gap ++ (t.text ++ s)).takeWhile isBlank = gap :=
      takeWhile_append hgap fun c hc =>
        Bool.eq_false_iff.mpr fun h => t.not_startsGap s c hc (.inl h)
    rw [hrest, htake]
    exact hc.over_gap hrest hlaid

/-- A definition is no comment. -/
theorem comment_declines : Declines K (Facing src b (t :: ts)) comment := by
  refine Declines.of_rest fun c hc => ?_
  obtain ⟨s, hrest, -⟩ := hc.rest_cons t ts rfl
  have hnone : Lexeme.comment? c.rest = none := by
    refine comment?_eq_none fun x hx => ?_
    rw [hrest] at hx
    have hgap := t.not_startsGap s x hx
    exact ⟨fun h => hgap (.inr (.inl h)), fun h => hgap (.inr (.inr h))⟩
  rw [hnone]
  exact Declines.failure

theorem node_eq_cons {node : Node} (h : NodeForm node us) :
    ∃ k us', us = .keyword k :: us' ∧ k.opens = true := by
  cases h with
  | struct _ hkind => cases hkind <;> exact ⟨_, _, rfl, rfl⟩
  | _ => exact ⟨_, _, rfl, rfl⟩

theorem nodes_opens {nodes : List Node} (h : Each NodeForm nodes ts) :
    ∀ t ∈ ts.head?, t.opens = true := by
  cases h with
  | nil => simp
  | cons hnode =>
    obtain ⟨k, us', rfl, hk⟩ := node_eq_cons hnode
    rintro t ⟨⟩
    exact hk

theorem nodes_past {nodes : List Node} (h : Each NodeForm nodes ts) : Past 3 ts := by
  cases h with
  | nil => exact past_nil
  | cons hnode =>
    obtain ⟨k, us', rfl, hk⟩ := node_eq_cons hnode
    revert hk
    cases k <;> simp [stage, Keyword.opens]

theorem nodes_length_le {nodes : List Node} (h : Each NodeForm nodes ts) :
    nodes.length ≤ ts.length := by
  induction h with
  | nil => exact Nat.le_refl _
  | cons hnode _ ih =>
    obtain ⟨k, us', rfl, -⟩ := node_eq_cons hnode
    simp only [List.length_cons, List.length_append]
    omega

theorem nodesUpTo_reads {nodes : List Node} {n : Nat} (h : Each NodeForm nodes ts)
    (hn : nodes.length < n) :
    Reads {AllSound src} (At src b ts) (nodesUpTo n) nodes (At src b []) := by
  induction h generalizing n with
  | nil =>
    obtain ⟨n, rfl⟩ := Nat.exists_eq_add_one.mpr (Nat.zero_lt_of_lt hn)
    refine (skipBlanks_reads (by simp)).bind (Reads.of_rest fun c hc => ?_)
    rw [hc.rest_nil rfl]
    exact (Reads.pure []).imp (fun c₀ hc₀ => hc₀ ▸ hc.toAt) fun _ hc => hc
  | @cons node nodes us ts hnode hmore ih =>
    obtain ⟨n, rfl⟩ := Nat.exists_eq_add_one.mpr (Nat.zero_lt_of_lt hn)
    have hopens := nodes_opens (Each.cons hnode hmore)
    have hcons : ∃ t ts', us ++ ts = t :: ts' := by
      obtain ⟨k, us', rfl, -⟩ := node_eq_cons hnode
      exact ⟨_, _, rfl⟩
    obtain ⟨t, ts', hts⟩ := hcons
    refine (skipBlanks_reads hopens).bind (Reads.of_rest fun c hc => ?_)
    have hnone : Declines {AllSound src} (· = c) comment := by
      intro c₀ hc₀
      rw [hts] at hc
      exact hc₀ ▸ comment_declines c hc
    have hread := (definition_reads (b := b) hnode (nodes_past hmore)).imp
      (fun c₀ (hc₀ : c₀ = c) => hc₀ ▸ hc.toAt) (fun _ hc => hc)
    obtain ⟨s, hrest, -⟩ := hc.rest_cons t ts' hts
    obtain ⟨x, xs, ht, -⟩ := t.text_eq_cons
    rw [hrest, ht]
    exact (Reads.orElse_right hnone hread).bind <| (ih (by simpa using hn)).bind <| Reads.pure _

end Parser

theorem parse_written {nodes : List Node} {text : List Char} (h : Written nodes text) :
    parse (String.ofList text) = .ok nodes := by
  obtain ⟨ts, hnodes, hlaid⟩ := h
  have hat : Parser.At text 0 ts (Cursor.ofText text) := ⟨rfl, Nat.zero_le _, hlaid⟩
  have hlen : nodes.length < text.length + 1 := by
    have htokens : ts.length ≤ text.length := hat.length_le
    have hnodes' := Parser.nodes_length_le hnodes
    omega
  have hempty {α : Type} {L : Set (Memos → Prop)} {item : Parser α} {base : Parser (List α)} :
      Parser.Sound L item base text [] := fun k e hk => by cases hk
  obtain ⟨c, -, hreads⟩ := Parser.nodesUpTo_reads hnodes hlen _ hat
  obtain ⟨s, hrun, -⟩ := hreads (Parser.AllSound text) rfl (State.ofText text)
    ⟨hempty, hempty, hempty, hempty⟩ rfl
  unfold parse
  simp only [String.toList_ofList, hrun]

/-- Nodes that can be written at all are read back from every text that they can be written in. -/
theorem parse_every_writing {nodes : List Node} (h : ∀ node ∈ nodes, Expressible node) :
    (∃ text, Written nodes text) ∧
      ∀ text, Written nodes text → parse (String.ofList text) = .ok nodes :=
  ⟨exists_written h, fun _ hwritten => parse_written hwritten⟩

/-! ## A service that extends one of another file -/

section Store

def storeNodes : List Node :=
  [.inclusion "base.thrift",
    .service "Store" (some "base.Store")
      [⟨"levels", some (.list (.named "Level")), [⟨some (-1), none, .prim .string, "key", none⟩],
          [], false⟩,
        ⟨"drop", none, [], [], true⟩]]

def storeText : String :=
  "include 'base.thrift' service Store extends base.Store \x7b /* by key */ list < Level > levels" ++
    " ( -1 : string key ) ; oneway void drop ( ) \x7d"

def basePath : Literal :=
  ⟨'\'', "base.thrift".toList, "base.thrift".toList, .inr rfl, spelled_self (by decide) (by decide)⟩

def minusOne : Numeral := ⟨.minus, ['1'], by decide, by simp, by decide⟩

def storeHead : List Token :=
  [.keyword .inclusion, .literal basePath, .keyword .service,
    .name ⟨"Store", by decide, by decide⟩, .keyword .parent,
    .name ⟨"base.Store", by decide, by decide⟩, .symbol .openBrace]

def storeTail : List Token :=
  [.symbol .less, .name ⟨"Level", by decide, by decide⟩, .symbol .greater,
    .name ⟨"levels", by decide, by decide⟩, .symbol .openParen, .numeral minusOne, .symbol .colon,
    .name ⟨"string", by decide, by decide⟩, .name ⟨"key", by decide, by decide⟩,
    .symbol .closeParen, .symbol .semicolon, .keyword .oneway, .keyword .void,
    .name ⟨"drop", by decide, by decide⟩, .symbol .openParen, .symbol .closeParen,
    .symbol .closeBrace]

theorem storeNodes_each :
    Each NodeForm storeNodes (storeHead ++ .keyword .list :: storeTail) := by
  have hstring : TypeForm (.prim .string) _ :=
    .prim (n := ⟨"string", by decide, by decide⟩) rfl .absent
  have hlevel : TypeForm (.named "Level") _ :=
    .named (n := ⟨"Level", by decide, by decide⟩) (by decide) .absent
  have hkey : FieldForm ⟨some (-1), none, .prim .string, "key", none⟩ _ :=
    .intro (n := ⟨"key", by decide, by decide⟩) (.some (.intro minusOne)) .none hstring .none
      .absent .absent
  have hlevels : FunctionForm ⟨"levels", some (.list (.named "Level")), _, [], false⟩ _ :=
    .intro (n := ⟨"levels", by decide, by decide⟩) .twoway
      (.type (.list hlevel .absent .absent)) (.cons hkey .nil) .absent .absent .semicolon
  have hdrop : FunctionForm ⟨"drop", none, [], [], true⟩ _ :=
    .intro (n := ⟨"drop", by decide, by decide⟩) .oneway .void .nil .absent .absent .absent
  have hservice : NodeForm (.service "Store" (some "base.Store") _) _ :=
    .service ⟨"Store", by decide, by decide⟩
      (.some (.intro ⟨"base.Store", by decide, by decide⟩)) (.cons hlevels (.cons hdrop .nil))
      .absent
  have heach := Each.cons (.inclusion basePath) (Each.cons hservice .nil)
  exact heach

theorem storeText_toList : ' ' :: storeText.toList =
    spread storeHead (" /* by key */ ".toList ++ "list".toList ++ spread storeTail []) := by
  refine (congrArg (' ' :: ·) String.toList_append).trans ?_
  decide +kernel

theorem laid_store :
    Laid (storeHead ++ .keyword .list :: storeTail) (' ' :: storeText.toList) := by
  have htail : Laid (storeTail ++ []) (spread storeTail []) := laid_spread (.nil (by simp))
  have hblock : Trivia (['/', '*'] ++ " by key ".toList ++ ['*', '/'] ++ [' ']) :=
    .block (by decide) (.blank (by decide) .nil)
  have hcomment : Gap (.keyword .list) " /* by key */ ".toList := Trivia.blank (by decide) hblock
  rw [List.append_nil] at htail
  rw [storeText_toList]
  exact laid_spread (Laid.cons (by decide) hcomment htail)

theorem parse_every_writing_store : (∃ text, Written storeNodes text) ∧
    parse storeText = .ok storeNodes := by
  have hlevels : ExpressibleFunction ⟨"levels", some (.list (.named "Level")),
      [⟨some (-1), none, .prim .string, "key", none⟩], [], false⟩ :=
    ⟨by decide, by simpa [ExpressibleType] using by decide,
      List.forall_mem_singleton.mpr ⟨by decide, trivial, by simp⟩, by simp⟩
  have hdrop : ExpressibleFunction ⟨"drop", none, [], [], true⟩ :=
    ⟨by decide, by simp, by simp, by simp⟩
  have hexpressible : ∀ node ∈ storeNodes, Expressible node := by
    refine List.forall_mem_cons.mpr ⟨trivial, List.forall_mem_singleton.mpr ?_⟩
    refine ⟨by decide, by decide, List.forall_mem_cons.mpr ⟨hlevels, ?_⟩⟩
    exact List.forall_mem_singleton.mpr hdrop
  obtain ⟨hwritten, hparse⟩ := parse_every_writing hexpressible
  have hstore := hparse storeText.toList ⟨_, storeNodes_each, laid_store⟩
  rw [String.ofList_toList] at hstore
  exact ⟨hwritten, hstore⟩

end Store

end ThriftRpc.Idl
