import ThriftRpc.Proofs.Ends
import ThriftRpc.Proofs.Idl.Definition
import ThriftRpc.Proofs.Idl.Steady

/-!
# Parsers that nest

The parsers of types, constants and definitions lead onward. A type or a constant is read within
another only behind a token of the outer one (`Guarded`), so that the text ahead bounds the nesting
(`Guarded.ends`).
-/

namespace ThriftRpc.Idl.Parser

variable {α β : Type} {text : List Char} {m n : Nat}

/-- The recursion with this body runs itself only further on in the text. -/
def Guarded (text : List Char) (body : Parser α → Parser α) : Prop :=
  ∀ m f g, Agree text (m + 1) f g → Agree text m (body f) (body g)

section Guarded

variable {body : Parser α → Parser α} {run : Nat → Parser α} (h : Guarded text body)
  (hrun : ∀ n, run (n + 1) = body (run n))

include h hrun

theorem Guarded.steady (hzero : Steady text (run 0)) (n : Nat) : Steady text (run n) := by
  induction n with
  | zero => exact hzero
  | succ n ih =>
    rw [hrun]
    exact h 0 _ _ (ih.at 1)

/-- After so many rounds, it does not matter what would come then. -/
theorem Guarded.agree (n : Nat) (f : Parser α) :
    Agree text (text.length + 1 - n) (body^[n] f) (run n) := by
  induction n with
  | zero =>
    intro s hs hm
    have := hs.placed.cursor.length_eq
    omega
  | succ n ih =>
    rw [Function.iterate_succ_apply', hrun]
    exact h _ _ _ (ih.mono (by omega))

variable (run) in
theorem Guarded.ends {s : State} (hs : Reached text s) (hn : s.cursor.rest.length < n) :
    Ends body (fun loop => loop s) (run n s) := by
  have hlen := hs.placed.cursor.length_eq
  exact ⟨n, fun f => (h.agree hrun n f s hs (by omega)).1⟩

end Guarded

/-! ## Types and constants -/

/-- One level of a type. -/
def typeRound (inner : Parser Ty) : Parser Ty := do
  let t ← firstOf [mapType inner, setType inner, listType inner] <|> simpleType
  annotations
  return t

section Types

variable {f g : Parser Ty}

theorem foreignType_steady : Steady text foreignType :=
  Agree.discard <| .optional <| (keyword_bites (by decide)).steady.bind fun _ => literal_bites.steady

theorem mapType_agree (h : Agree text (m + 1) f g) : Agree text m (mapType f) (mapType g) :=
  (keyword_bites (by decide)).bind_agree fun _ =>
    (foreignType_steady.at _).bind fun _ => ((symbol_steady (by decide)).at _).bind fun _ =>
    h.bind fun _ => ((symbol_steady (by decide)).at _).bind fun _ =>
    h.bind fun _ => ((symbol_steady (by decide)).at _).bind fun _ => .pure _

theorem setType_agree (h : Agree text (m + 1) f g) : Agree text m (setType f) (setType g) :=
  (keyword_bites (by decide)).bind_agree fun _ =>
    (foreignType_steady.at _).bind fun _ => ((symbol_steady (by decide)).at _).bind fun _ =>
    h.bind fun _ => ((symbol_steady (by decide)).at _).bind fun _ => .pure _

theorem listType_agree (h : Agree text (m + 1) f g) : Agree text m (listType f) (listType g) :=
  (keyword_bites (by decide)).bind_agree fun _ =>
    ((symbol_steady (by decide)).at _).bind fun _ => h.bind fun _ =>
    ((symbol_steady (by decide)).at _).bind fun _ => (foreignType_steady.at _).bind fun _ => .pure _

theorem simpleType_steady : Steady text simpleType := by
  refine identifier_bites.steady.bind fun name => ?_
  cases Primitive.ofKeyword? name with
  | some p => exact .pure _
  | none => exact .pure _

theorem typeRound_guarded : Guarded text typeRound := by
  intro m f g h
  have hcontainer := (mapType_agree h).firstOf_cons <| (setType_agree h).firstOf_cons <|
    (listType_agree h).firstOf_cons .firstOf_nil
  exact (hcontainer.orElse (simpleType_steady.at m)).bind fun t =>
    (annotations_steady.at m).bind fun _ => .pure t

theorem typeWithin_steady (depth : Nat) : Steady text (typeWithin depth) :=
  typeRound_guarded.steady (fun _ => rfl) .failure depth

theorem type_steady : Steady text type :=
  .of_rest fun s hs hm => typeWithin_steady _ s hs hm

end Types

def listItem (inner : Parser Const) : Parser Const := do
  let v ← inner
  separator
  return v

def mapEntry (inner : Parser Const) : Parser (Const × Const) := do
  let key ← inner
  symbol ":"
  let value ← inner
  separator
  return (key, value)

/-- One level of a constant. -/
def constantRound (inner : Parser Const) : Parser Const :=
  firstOf [.double <$> double, .int <$> integer, .string <$> literal, .identifier <$> identifier,
    listConstant inner, mapConstant inner]

section Constants

variable {f g : Parser Const}

theorem listItem_agree (h : Agree text m f g) : Agree text m (listItem f) (listItem g) :=
  h.bind fun v => (separator_steady.at m).bind fun _ => .pure v

theorem mapEntry_agree (h : Agree text m f g) : Agree text m (mapEntry f) (mapEntry g) :=
  h.bind fun _ => ((symbol_steady (by decide)).at m).bind fun _ => h.bind fun _ =>
    (separator_steady.at m).bind fun _ => .pure _

theorem listConstant_agree (h : Agree text (m + 1) f g) :
    Agree text m (listConstant f) (listConstant g) :=
  (symbol_bites (by decide)).bind_agree fun _ =>
    (listItem_agree h).many.bind fun _ => ((symbol_steady (by decide)).at _).bind fun _ => .pure _

theorem mapConstant_agree (h : Agree text (m + 1) f g) :
    Agree text m (mapConstant f) (mapConstant g) :=
  (symbol_bites (by decide)).bind_agree fun _ =>
    (mapEntry_agree h).many.bind fun _ => ((symbol_steady (by decide)).at _).bind fun _ => .pure _

theorem constantRound_guarded : Guarded text constantRound := fun m _ _ h =>
  (double_bites.steady.at m).map.firstOf_cons <| (integer_bites.steady.at m).map.firstOf_cons <|
    (literal_bites.steady.at m).map.firstOf_cons <|
    (identifier_bites.steady.at m).map.firstOf_cons <|
    (listConstant_agree h).firstOf_cons <| (mapConstant_agree h).firstOf_cons .firstOf_nil

theorem constantWithin_steady (depth : Nat) : Steady text (constantWithin depth) :=
  constantRound_guarded.steady (fun _ => rfl) .failure depth

theorem constant_steady : Steady text constant :=
  .of_rest fun s hs hm => constantWithin_steady _ s hs hm

theorem listConstant_bites (h : Steady text f) : Bites text (listConstant f) :=
  (symbol_bites (by decide)).bind fun _ => (listItem_agree h).many.bind fun _ =>
    (symbol_steady (by decide)).bind fun _ => .pure _

theorem mapConstant_bites (h : Steady text f) : Bites text (mapConstant f) :=
  (symbol_bites (by decide)).bind fun _ => (mapEntry_agree h).many.bind fun _ =>
    (symbol_steady (by decide)).bind fun _ => .pure _

theorem constantWithin_bites (depth : Nat) : Bites text (constantWithin depth) := by
  cases depth with
  | zero => exact .failure
  | succ depth =>
    have hinner : Steady text (constantWithin depth) := constantWithin_steady depth
    exact double_bites.map.firstOf_cons <| integer_bites.map.firstOf_cons <|
      literal_bites.map.firstOf_cons <| identifier_bites.map.firstOf_cons <|
      (listConstant_bites hinner).firstOf_cons <|
      (mapConstant_bites hinner).firstOf_cons .firstOf_nil

end Constants

/-! ## Lists and definitions -/

section Lists

theorem requiredness_steady : Steady text requiredness :=
  (keyword_bites (by decide)).steady.succeeds.bind fun _ => .ite (.pure _) <|
    (keyword_bites (by decide)).steady.succeeds.bind fun _ => .ite (.pure _) (.pure _)

theorem field_steady : Steady text field :=
  (integer_bites.steady.bind fun _ =>
      (symbol_steady (by decide)).bind fun _ => .pure _).optional.bind fun _ =>
    requiredness_steady.bind fun _ => type_steady.bind fun _ => identifier_bites.steady.bind fun _ =>
    ((symbol_steady (by decide)).bind fun _ => constant_steady).optional.bind fun _ =>
    annotations_steady.bind fun _ => separator_steady.bind fun _ => .pure _

theorem oneMore_steady (r : ListRule) {item : Parser r.Item} {base : Parser (List r.Item)}
    (hitem : Steady text item) (hbase : Steady text base) :
    Steady text (oneMore r.slot item base) :=
  (remembered_steady.bind fun _ => hitem.bind fun _ => .pure _).attempt.orElse hbase

theorem single_steady {item : Parser α} (h : Steady text item) :
    Steady text (do return [← item]) := h.bind fun _ => .pure _

theorem fields_steady : Steady text fields :=
  (apply_steady (oneMore_steady .fields field_steady (single_steady field_steady))).optional.bind
    fun _ => .pure _

theorem throwsClause_steady : Steady text throwsClause :=
  (keyword_bites (by decide)).steady.bind fun _ => (symbol_steady (by decide)).bind fun _ =>
    fields_steady.bind fun _ => (symbol_steady (by decide)).bind fun _ => .pure _

theorem signature_steady (oneway : Bool) (returns : Option Ty) :
    Steady text (signature oneway returns) :=
  identifier_bites.steady.bind fun _ => (symbol_steady (by decide)).bind fun _ =>
    fields_steady.bind fun _ => (symbol_steady (by decide)).bind fun _ =>
    throwsClause_steady.optional.bind fun _ => annotations_steady.bind fun _ =>
    separator_steady.bind fun _ => .pure _

theorem function_steady : Steady text function :=
  Agree.bind (Agree.succeeds <| (keyword_bites (by decide)).steady.firstOf_cons <|
      (keyword_bites (by decide)).steady.firstOf_cons .firstOf_nil) fun oneway =>
    (keyword_bites (by decide)).steady.succeeds.bind fun _ =>
    .ite ((Agree.pure none).bind (signature_steady oneway))
      (type_steady.map.bind (signature_steady oneway))

theorem enumMember_steady : Steady text enumMember :=
  identifier_bites.steady.bind fun _ =>
    ((symbol_steady (by decide)).bind fun _ => integer_bites.steady).optional.bind fun _ =>
    annotations_steady.bind fun _ => separator_steady.bind fun _ => .pure _

theorem textItem_steady : Steady text textItem :=
  literal_bites.steady.bind fun _ => separator_steady.bind fun _ => .pure _

/-- What a list rule runs. -/
def listBody : (r : ListRule) → Parser (List r.Item)
  | .fields => oneMore fieldSlot field (do return [← field])
  | .functions => oneMore functionSlot function (do return [← function])
  | .members => oneMore memberSlot enumMember (do return [← enumMember])
  | .literals => oneMore literalSlot textItem (return [])

theorem listBody_steady (r : ListRule) : Steady text (listBody r) := by
  cases r with
  | fields => exact oneMore_steady .fields field_steady (single_steady field_steady)
  | functions => exact oneMore_steady .functions function_steady (single_steady function_steady)
  | members => exact oneMore_steady .members enumMember_steady (single_steady enumMember_steady)
  | literals => exact oneMore_steady .literals textItem_steady (.pure [])

/-- The rule itself. -/
def list : (r : ListRule) → Parser (List r.Item)
  | .fields => fieldList
  | .functions => functionList
  | .members => memberList
  | .literals => literalList

theorem list_eq (r : ListRule) : list r = Packrat.apply r.slot (listBody r) := by
  cases r with
  | fields | functions | members => rfl
  | literals => exact literalList_eq

theorem list_steady (r : ListRule) : Steady text (list r) := by
  rw [list_eq]
  exact apply_steady (listBody_steady r)

end Lists

section Definitions

theorem inclusion_bites : Bites text inclusion :=
  (keyword_bites (by decide)).bind fun _ => literal_bites.steady.bind fun _ => .pure _

theorem scope_bites : Bites text scope :=
  (keyword_bites (by decide)).bind fun _ => (symbol_steady (by decide)).succeeds.bind fun _ =>
    .ite ((Agree.pure none).bind fun _ => identifier_bites.steady.bind fun _ => .pure _)
      (identifier_bites.steady.map.bind fun _ => identifier_bites.steady.bind fun _ => .pure _)

theorem constantDefinition_bites : Bites text constantDefinition :=
  (keyword_bites (by decide)).bind fun _ => type_steady.bind fun _ =>
    identifier_bites.steady.bind fun _ => (symbol_steady (by decide)).bind fun _ =>
    constant_steady.bind fun _ => separator_steady.bind fun _ => .pure _

theorem typedef_bites : Bites text typedef :=
  (keyword_bites (by decide)).bind fun _ => type_steady.bind fun _ =>
    identifier_bites.steady.bind fun _ => annotations_steady.bind fun _ =>
    separator_steady.bind fun _ => .pure _

theorem enum_bites : Bites text enum :=
  (keyword_bites (by decide)).bind fun _ => identifier_bites.steady.bind fun _ =>
    (symbol_steady (by decide)).bind fun _ => (list_steady .members).optional.bind fun _ =>
    (symbol_steady (by decide)).bind fun _ => annotations_steady.bind fun _ => .pure _

theorem senum_bites : Bites text senum :=
  (keyword_bites (by decide)).bind fun _ => identifier_bites.steady.bind fun _ =>
    (symbol_steady (by decide)).bind fun _ => (list_steady .literals).optional.bind fun _ =>
    (symbol_steady (by decide)).bind fun _ => .pure _

theorem structKind_bites : Bites text structKind :=
  (keyword_bites (by decide)).if_succeeds (.pure _) <|
    (keyword_bites (by decide)).bind fun _ => .pure _

theorem struct_bites : Bites text struct :=
  structKind_bites.bind fun _ => identifier_bites.steady.bind fun _ =>
    (keyword_bites (by decide)).steady.succeeds.discard.bind fun _ =>
    (symbol_steady (by decide)).bind fun _ => fields_steady.bind fun _ =>
    (symbol_steady (by decide)).bind fun _ => annotations_steady.bind fun _ => .pure _

theorem exception_bites : Bites text exception :=
  (keyword_bites (by decide)).bind fun _ => identifier_bites.steady.bind fun _ =>
    (symbol_steady (by decide)).bind fun _ => fields_steady.bind fun _ =>
    (symbol_steady (by decide)).bind fun _ => annotations_steady.bind fun _ => .pure _

theorem service_bites : Bites text service :=
  (keyword_bites (by decide)).bind fun _ => identifier_bites.steady.bind fun _ =>
    ((keyword_bites (by decide)).bind fun _ => identifier_bites.steady).steady.optional.bind fun _ =>
    (symbol_steady (by decide)).bind fun _ => (list_steady .functions).optional.bind fun _ =>
    (symbol_steady (by decide)).bind fun _ => annotations_steady.bind fun _ => .pure _

theorem definition_bites : Bites text definition :=
  inclusion_bites.firstOf_cons <| scope_bites.firstOf_cons <|
    constantDefinition_bites.firstOf_cons <| typedef_bites.firstOf_cons <|
    enum_bites.firstOf_cons <| senum_bites.firstOf_cons <| struct_bites.firstOf_cons <|
    exception_bites.firstOf_cons <| service_bites.firstOf_cons .firstOf_nil

theorem inclusion_notes : Notes text inclusion :=
  token_notes.bind (keyword_bites (by decide)).steady fun _ =>
    token_notes.bind literal_bites.steady fun _ => .pure _

/-- The first alternative notes a failure where a definition begins, or further on. -/
theorem definition_notes : Notes text definition :=
  inclusion_notes.attempt.orElse_left inclusion_bites.attempt.steady <| Bites.steady <|
    scope_bites.firstOf_cons <| constantDefinition_bites.firstOf_cons <|
    typedef_bites.firstOf_cons <| enum_bites.firstOf_cons <| senum_bites.firstOf_cons <|
    struct_bites.firstOf_cons <| exception_bites.firstOf_cons <|
    service_bites.firstOf_cons .firstOf_nil

theorem comment_bites : Bites text comment := by
  refine .of_rest fun s hs => ?_
  cases hfound : Lexeme.comment? s.cursor.rest with
  | none => exact ⟨.refl hs, fun _ _ hrun => by cases hrun⟩
  | some found =>
    refine ⟨.forward hs (Lexeme.comment?_begins hfound).length_le, fun _ _ hrun => ?_⟩
    cases hrun
    exact Nat.lt_add_of_pos_right (Lexeme.length_pos_of_comment? hfound).1

/-- What the text is made of. -/
def element : Parser Node := comment <|> definition

theorem element_bites : Bites text element := comment_bites.orElse definition_bites

theorem element_notes : Notes text element :=
  definition_notes.orElse_right comment_bites.steady

end Definitions

end ThriftRpc.Idl.Parser
