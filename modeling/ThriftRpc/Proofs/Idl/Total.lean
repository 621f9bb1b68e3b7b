import ThriftRpc.Proofs.Idl.Nesting

/-!
# Reading any text

Every parse ends, and no cursor ever stands outside the text or inside a character (`parse_total`).
The rules of the grammar lead from one state that parsing comes to on to the next (`Safe`). Their
recursions and loops run out of text before they run out of fuel (`LoopsEnd`). So a parse reads
elements one after another (`Elements`), up to the end of the text or to where there is none, and an
error is about a place in the text there or further on (`ErrorWithin`).
-/

namespace ThriftRpc.Idl

open Text (Cursor Place)

namespace Parser

variable {α : Type} {text : List Char} {s s' : State} {n : Nat}

section Loops

theorem manyRound_guarded {p : Parser α} (hb : Bites text p) : Guarded text (manyRound p) := by
  intro m f g h
  have hfound : Steady text (optional? p) := hb.steady.optional
  refine (hfound.at m).bind_of fun found s s' hs hm hrun honward => ?_
  cases found with
  | none => exact Agree.pure (m := m) [] s' honward.reached (hm.trans honward.cursor)
  | some a =>
    have hfurther : m + 1 ≤ s'.cursor.offset := Nat.lt_of_le_of_lt hm (hb.optional hs hrun)
    exact h.bind (fun as => .pure (a :: as)) s' honward.reached hfurther

/-- A repetition ends at the latest where the text does. -/
theorem many_ends {p : Parser α} (hb : Bites text p) (hs : Reached text s) :
    Ends (manyRound p) (fun loop => loop s) (many p s) :=
  (manyRound_guarded hb).ends (fun n => repeatUpTo n p) (fun _ => rfl) hs (Nat.lt_succ_self _)

theorem rest_bind (f : List Char → Parser α) (s : State) : (rest >>= f) s = f s.cursor.rest s := rfl

theorem type_ends (hs : Reached text s) : Ends typeRound (fun loop => loop s) (type s) := by
  rw [show type s = typeWithin (s.cursor.rest.length + 1) s from rest_bind _ s]
  exact typeRound_guarded.ends typeWithin (fun _ => rfl) hs (Nat.lt_succ_self _)

theorem constant_ends (hs : Reached text s) :
    Ends constantRound (fun loop => loop s) (constant s) := by
  rw [show constant s = constantWithin (s.cursor.rest.length + 1) s from rest_bind _ s]
  exact constantRound_guarded.ends constantWithin (fun _ => rfl) hs (Nat.lt_succ_self _)

theorem listItem_bites (depth : Nat) : Bites text (listItem (constantWithin depth)) :=
  (constantWithin_bites depth).bind fun v => separator_steady.bind fun _ => .pure v

theorem mapEntry_bites (depth : Nat) : Bites text (mapEntry (constantWithin depth)) :=
  (constantWithin_bites depth).bind fun _ => (symbol_steady (by decide)).bind fun _ =>
    (constantWithin_steady depth).bind fun _ => separator_steady.bind fun _ => .pure _

/-- How much of the text an answer leaves. -/
def ahead (text : List Char) (r : ListRule) (offset : Nat) (s : State) : Nat :=
  text.length - ((s.stop? r offset).map Cursor.offset).getD 0

theorem growRound_decreases (r : ListRule) {s₀ : State} (hs₀ : Reached text s₀) :
    Decreases (Packrat.growRound r.slot (listBody r) s₀.cursor) (fun s loop => loop s)
      (fun s => Reached text s ∧ ∃ stop, s.stop? r s₀.cursor.offset = some stop)
      (ahead text r s₀.cursor.offset) := by
  rintro f g s ⟨hs, stop, hstop⟩ hloop
  obtain ⟨s', hlater, hdone | ⟨hround, hfurther⟩⟩ := growRound_cases (listBody_steady r) hs hs₀
  · exact (hdone f).trans (hdone g).symm
  · obtain ⟨stop', hstop', hlt⟩ := hfurther stop hstop
    refine (hround f).trans (.trans (hloop s' ⟨hlater.reached, stop', hstop'⟩ ?_) (hround g).symm)
    have := (hlater.reached.placed.stop _ _ _ hstop').1.length_eq
    simp only [ahead, hstop, hstop', Option.map_some, Option.getD_some]
    omega

/-- An answer grows at most to the end of the text. -/
theorem grow_ends (r : ListRule) {s₀ : State} (hs₀ : Reached text s₀) (hs : Reached text s)
    {stop : Cursor} (hstop : s.stop? r s₀.cursor.offset = some stop) :
    Ends (Packrat.growRound r.slot (listBody r) s₀.cursor) (fun loop => loop s)
      (Packrat.grow r.slot (listBody r) s₀.cursor (s₀.cursor.rest.length + 1) s) := by
  refine (growRound_decreases r hs₀).ends (Packrat.grow r.slot (listBody r) s₀.cursor)
    (fun n => funext (Packrat.grow_succ n)) ⟨hs, stop, hstop⟩ ?_
  have hlen := hs₀.placed.cursor.length_eq
  have hle := (hs.placed.stop _ _ _ hstop).2
  simp only [ahead, hstop, Option.map_some, Option.getD_some]
  omega

/-- The next element, if there is one, and then all others. -/
def nodesRound (loop : Parser (List Node)) : Parser (List Node) := do
  skipBlanks
  if (← rest) matches [] then return []
  let node ← element
  return node :: (← loop)

theorem nodesUpTo_succ (n : Nat) : nodesUpTo (n + 1) = nodesRound (nodesUpTo n) := rfl

theorem nodesRound_guarded : Guarded text nodesRound := by
  intro m f g h
  refine (skipBlanks_steady.at m).bind fun _ => .of_rest fun s hs hm => ?_
  cases s.cursor.rest with
  | nil => exact ⟨rfl, .refl hs⟩
  | cons c rest =>
    exact (element_bites.bind_agree fun node => h.bind fun nodes => .pure (node :: nodes)) s hs hm

end Loops

/-- The recursions and loops of the grammar give what they would give with any more rounds. (That
over blanks and comments has no bound on its rounds.) -/
structure LoopsEnd (text : List Char) : Prop where
  type : ∀ s, Reached text s → Ends typeRound (fun loop => loop s) (type s)
  constant : ∀ s, Reached text s → Ends constantRound (fun loop => loop s) (constant s)
  annotations : ∀ s, Reached text s →
    Ends (manyRound annotation) (fun loop => loop s) (many annotation s)
  items : ∀ depth s, Reached text s → Ends (manyRound (listItem (constantWithin depth)))
    (fun loop => loop s) (many (listItem (constantWithin depth)) s)
  entries : ∀ depth s, Reached text s → Ends (manyRound (mapEntry (constantWithin depth)))
    (fun loop => loop s) (many (mapEntry (constantWithin depth)) s)
  growing : ∀ r s s₀ stop, Reached text s → Reached text s₀ →
    s.stop? r s₀.cursor.offset = some stop →
    Ends (Packrat.growRound r.slot (listBody r) s₀.cursor) (fun loop => loop s)
      (Packrat.grow r.slot (listBody r) s₀.cursor (s₀.cursor.rest.length + 1) s)
  nodes : ∀ s, Reached text s →
    Ends nodesRound (fun loop => loop s) (nodesUpTo (s.cursor.rest.length + 1) s)

theorem loopsEnd (text : List Char) : LoopsEnd text where
  type _ hs := type_ends hs
  constant _ hs := constant_ends hs
  annotations _ hs := many_ends annotation_bites hs
  items depth _ hs := many_ends (listItem_bites depth) hs
  entries depth _ hs := many_ends (mapEntry_bites depth) hs
  growing r _ _ _ hs hs₀ hstop := grow_ends r hs₀ hs hstop
  nodes _ hs := nodesRound_guarded.ends nodesUpTo nodesUpTo_succ hs (Nat.lt_succ_self _)

/-- Every rule leads from a state that parsing comes to onward to another. The places that such a
state keeps are between two characters of the text, in bytes as well. -/
structure Safe (text : List Char) : Prop where
  splits : ∀ s c, Reached text s → s.Keeps c → c.Splits text ∧
    Text.takeBytes? (Text.utf8Length (text.take c.offset)) text = some (text.take c.offset)
  blanks : Steady text skipBlanks
  trivia : Steady text skipTrivia
  keyword : ∀ word, word ≠ "" → Steady text (keyword word)
  symbol : ∀ x, x ≠ "" → Steady text (symbol x)
  identifier : Steady text identifier
  double : Steady text double
  literal : Steady text literal
  integer : Steady text integer
  separator : Steady text separator
  annotations : Steady text annotations
  type : ∀ depth, Steady text (typeWithin depth)
  constant : ∀ depth, Steady text (constantWithin depth)
  list : ∀ r, Steady text (list r)
  body : ∀ r, Steady text (listBody r)
  element : Steady text element
  nodes : ∀ n, Steady text (nodesUpTo n)

theorem safe (text : List Char) : Safe text where
  splits _ _ hs hc := ⟨hs.placed.keeps hc, (hs.placed.keeps hc).takeBytes?_eq⟩
  blanks := skipBlanks_steady
  trivia := skipTrivia_steady
  keyword _ h := (keyword_bites h).steady
  symbol _ h := symbol_steady h
  identifier := identifier_bites.steady
  double := double_bites.steady
  literal := literal_bites.steady
  integer := integer_bites.steady
  separator := separator_steady
  annotations := annotations_steady
  type := typeWithin_steady
  constant := constantWithin_steady
  list := list_steady
  body := listBody_steady
  element := element_bites.steady
  nodes := nodesRound_guarded.steady nodesUpTo_succ .failure

/-! ## Elements -/

/-- Where the next element begins. -/
def atElement (s : State) : State := (skipBlanks s).2

/-- Elements that are read one after another. -/
inductive Elements : State → List Node → State → Prop
  | nil (s : State) : Elements s [] s
  | cons {s s₁ s' : State} {node : Node} {nodes : List Node} :
    element (atElement s) = (some node, s₁) → Elements s₁ nodes s' → Elements s (node :: nodes) s'

section Elements

theorem atElement_onward (hs : Reached text s) : Onward text s (atElement s) :=
  (skipBlanks_steady s hs (Nat.zero_le _)).2

theorem Elements.reached {nodes : List Node} (h : Elements s nodes s') (hs : Reached text s) :
    Reached text s' := by
  induction h with
  | nil => exact hs
  | cons hrun _ ih =>
    exact ih (element_bites.steady.onward (atElement_onward hs).reached hrun).reached

theorem nodesRound_run (loop : Parser (List Node)) (s : State) :
    nodesRound loop s = (if (atElement s).cursor.rest matches [] then pure [] else
      (do return (← element) :: (← loop)) : Parser (List Node)) (atElement s) := rfl

theorem nodesRound_of_nil (loop : Parser (List Node)) (h : (atElement s).cursor.rest = []) :
    nodesRound loop s = (some [], atElement s) := by
  rw [nodesRound_run, h]
  rfl

theorem nodesRound_of_ne_nil (loop : Parser (List Node)) (h : (atElement s).cursor.rest ≠ []) :
    nodesRound loop s = (do return (← element) :: (← loop) : Parser (List Node)) (atElement s) := by
  obtain ⟨c, rest, hrest⟩ := List.exists_cons_of_ne_nil h
  rw [nodesRound_run, hrest]
  rfl

/-- A parse comes to the end of the text, or to where there is no element. -/
theorem nodesUpTo_cases (hs : Reached text s) (hn : s.cursor.rest.length < n) :
    ∃ nodes s', Elements s nodes s' ∧
      ((atElement s').cursor.rest = [] ∧ nodesUpTo n s = (some nodes, atElement s') ∨
        (atElement s').cursor.rest ≠ [] ∧
          ∃ s'', element (atElement s') = (none, s'') ∧ nodesUpTo n s = (none, s'')) := by
  induction n generalizing s with
  | zero => exact absurd hn (Nat.not_lt_zero _)
  | succ n ih =>
    by_cases hrest : (atElement s).cursor.rest = []
    · exact ⟨[], s, .nil s, .inl ⟨hrest, nodesRound_of_nil _ hrest⟩⟩
    have hround : nodesUpTo (n + 1) s = _ := nodesRound_of_ne_nil (nodesUpTo n) hrest
    have honward := atElement_onward hs
    rcases hrun : element (atElement s) with ⟨_ | node, s₁⟩
    · exact ⟨[], s, .nil s, .inr ⟨hrest, s₁, hrun, hround.trans (Packrat.bind_of_none hrun)⟩⟩
    rw [hround, Packrat.bind_of_some hrun]
    -- the element has left less of the text to the loop
    have hreached := (element_bites.steady.onward honward.reached hrun).reached
    have hlt : s.cursor.offset < s₁.cursor.offset :=
      honward.cursor.trans_lt (element_bites.further _ honward.reached _ _ hrun)
    have hlen := hs.placed.cursor.length_eq
    have hlen₁ := hreached.placed.cursor.length_eq
    obtain ⟨nodes, s', helements, ⟨hend, hnodes⟩ | ⟨hne, s'', hnone, hnodes⟩⟩ :=
      ih hreached (by omega)
    · exact ⟨node :: nodes, s', .cons hrun helements, .inl ⟨hend, Packrat.bind_of_some hnodes⟩⟩
    · exact ⟨node :: nodes, s', .cons hrun helements,
        .inr ⟨hne, s'', hnone, Packrat.bind_of_none hnodes⟩⟩

end Elements

end Parser

/-! ## Errors -/

theorem intercalate_ne_empty {sep : String} {words : List String} (hne : words ≠ [])
    (hwords : ∀ word ∈ words, word ≠ "") : sep.intercalate words ≠ "" := by
  intro h
  obtain ⟨word, words, rfl⟩ := List.exists_cons_of_ne_nil hne
  have hlist := congrArg String.toList h
  have hword : word.toList ≠ [] := by simpa using hwords word List.mem_cons_self
  cases words with
  | nil => simp_all
  | cons word' words =>
    rw [String.intercalate_cons_cons] at hlist
    simp_all

/-- The error is about a place between two characters of the text, so many characters from its
begin or more. Newlines before the place tell its line, and the characters behind the last of them
its column. The error shows the character that lies ahead, and says what was expected. -/
structure ErrorWithin (source : String) (offset : Nat) (e : ParseError) : Prop where
  placed : ∃ behind ahead, source.toList = behind ++ ahead ∧ offset ≤ behind.length ∧
    e.place.line = behind.count '\n' + 1 ∧
    e.place.column = (behind.reverse.takeWhile (· ≠ '\n')).length + 1 ∧
    Place.atByte? source (Text.utf8Length behind) = some e.place ∧
    e.found = match ahead with
      | c :: _ => quote (String.singleton c)
      | [] => "end of input"
  expected : e.expected ≠ ""

theorem errorWithin_atCursor {source : String} {s : State} {offset : Nat}
    (h : Placed source.toList s) (hle : offset ≤ s.furthest.offset) :
    ErrorWithin source offset (.atCursor source.toList s.furthest s.expected) where
  placed := by
    have hlen := h.furthest.length_eq
    have hplace := Place.after_eq (source.toList.take s.furthest.offset)
    exact ⟨source.toList.take s.furthest.offset, s.furthest.rest, h.furthest.take_eq.symm,
      by rw [List.length_take]; omega, congrArg Place.line hplace, congrArg Place.column hplace,
      h.furthest.atByte?, rfl⟩
  expected := by
    simp only [ParseError.atCursor]
    split
    · decide
    · next hne => exact intercalate_ne_empty hne h.expected

/-- Reading a text gives its nodes if it consists of elements up to its end, and otherwise an error
about where the first element that cannot be read begins, or further on. -/
theorem parse_total (source : String) :
    Parser.Safe source.toList ∧ Parser.LoopsEnd source.toList ∧
      ∃ nodes s, Parser.Elements (State.ofText source.toList) nodes s ∧ Reached source.toList s ∧
        match parse source with
        | .ok nodes' => nodes' = nodes ∧ (Parser.atElement s).cursor.rest = []
        | .error e => (Parser.atElement s).cursor.rest ≠ [] ∧
            (Parser.element (Parser.atElement s)).1 = none ∧
            ErrorWithin source (Parser.atElement s).cursor.offset e := by
  refine ⟨Parser.safe _, Parser.loopsEnd _, ?_⟩
  have hstart : Reached source.toList (State.ofText source.toList) := .start
  obtain ⟨nodes, s, helements, hcases⟩ :=
    Parser.nodesUpTo_cases (n := source.toList.length + 1) hstart (Nat.lt_succ_self _)
  have hs := helements.reached hstart
  refine ⟨nodes, s, helements, hs, ?_⟩
  obtain ⟨hend, hrun⟩ | ⟨hne, s', hnone, hrun⟩ := hcases
  · have hparse : parse source = .ok nodes := by simp only [parse, hrun]
    rw [hparse]
    exact ⟨rfl, hend⟩
  · have hat := (Parser.atElement_onward hs).reached
    have hs' := (Parser.element_bites.steady.onward hat hnone).reached
    have hparse : parse source = .error (.atCursor source.toList s'.furthest s'.expected) := by
      simp only [parse, hrun]
    rw [hparse]
    exact ⟨hne, by rw [hnone], errorWithin_atCursor hs'.placed
      (Parser.element_notes _ hat _ hnone)⟩

end ThriftRpc.Idl
