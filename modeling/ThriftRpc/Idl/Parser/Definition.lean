import ThriftRpc.Idl.Parser.Expression

/-!
# Reading definitions

The list rules are left-recursive: a list is a shorter list and one more item, or a first item.
`parse` reads a whole source text into nodes.
-/

namespace ThriftRpc.Idl

open Packrat (Slot apply remembered)

namespace Parser

/-! ## Fields -/

def requiredness : Parser (Option Requiredness) := do
  if ← succeeds (keyword "required") then return some .required
  if ← succeeds (keyword "optional") then return some .optional
  return none

def field : Parser Field := do
  let index ← optional? do
    let n ← integer
    symbol ":"
    return n
  let requiredness ← requiredness
  let type ← type
  let name ← identifier
  let default ← optional? do
    symbol "="
    constant
  annotations
  separator
  return ⟨index, requiredness, type, name, default⟩

/-- A list of at least one item. -/
def itemList {α : Type} (slot : Slot State (List α)) (item : Parser α) : Parser (List α) :=
  apply slot do
    attempt (do
      let items ← remembered slot
      return items ++ [← item]) <|> (do return [← item])

def fieldSlot : Slot State (List Field) :=
  ⟨State.fieldLists, fun m s => { s with fieldLists := m }⟩

def fieldList : Parser (List Field) := itemList fieldSlot field

/-- The fields of a list that may be empty. -/
def fields : Parser (List Field) := return (← optional? fieldList).getD []

/-! ## Services -/

def throwsClause : Parser (List Field) := do
  keyword "throws"
  symbol "("
  let fs ← fields
  symbol ")"
  return fs

def function : Parser Function := do
  let oneway ← succeeds (firstOf [keyword "oneway", keyword "async"])
  let returns ← if ← succeeds (keyword "void") then pure none else some <$> type
  let name ← identifier
  symbol "("
  let arguments ← fields
  symbol ")"
  let throws ← optional? throwsClause
  annotations
  separator
  return ⟨name, returns, arguments, throws.getD [], oneway⟩

def functionSlot : Slot State (List Function) :=
  ⟨State.functionLists, fun m s => { s with functionLists := m }⟩

def functionList : Parser (List Function) := itemList functionSlot function

def service : Parser Node := do
  keyword "service"
  let name ← identifier
  let parent ← optional? do
    keyword "extends"
    identifier
  symbol "\x7b"
  let functions ← optional? functionList
  symbol "\x7d"
  annotations
  return .service name parent (functions.getD [])

/-! ## Enums -/

def enumMember : Parser EnumMember := do
  let name ← identifier
  let value ← optional? do
    symbol "="
    integer
  annotations
  separator
  return ⟨name, value⟩

def memberSlot : Slot State (List EnumMember) :=
  ⟨State.memberLists, fun m s => { s with memberLists := m }⟩

def memberList : Parser (List EnumMember) := itemList memberSlot enumMember

def enum : Parser Node := do
  keyword "enum"
  let name ← identifier
  symbol "\x7b"
  let members ← optional? memberList
  symbol "\x7d"
  annotations
  return .enum name (members.getD [])

def literalSlot : Slot State (List String) :=
  ⟨State.literalLists, fun m s => { s with literalLists := m }⟩

/-- A list of literals, which may be empty. -/
def literalList : Parser (List String) :=
  apply literalSlot do
    attempt (do
      let values ← remembered literalSlot
      let value ← literal
      separator
      return values ++ [value]) <|> return []

def senum : Parser Node := do
  keyword "senum"
  let name ← identifier
  symbol "\x7b"
  let values ← optional? literalList
  symbol "\x7d"
  return .senum name (values.getD [])

/-! ## Structs -/

def structKind : Parser StructKind := do
  if ← succeeds (keyword "struct") then return .struct
  keyword "union"
  return .union

def struct : Parser Node := do
  let kind ← structKind
  let name ← identifier
  discard (succeeds (keyword "xsd_all"))
  symbol "\x7b"
  let fs ← fields
  symbol "\x7d"
  annotations
  return .struct kind name fs

def exception : Parser Node := do
  keyword "exception"
  let name ← identifier
  symbol "\x7b"
  let fs ← fields
  symbol "\x7d"
  annotations
  return .exception name fs

/-! ## Headers, constants and aliases -/

def inclusion : Parser Node := do
  keyword "include"
  return .inclusion (← literal)

def scope : Parser Node := do
  keyword "namespace"
  let lang ← if ← succeeds (symbol "*") then pure none else some <$> identifier
  return .scope lang (← identifier)

def constantDefinition : Parser Node := do
  keyword "const"
  let type ← type
  let name ← identifier
  symbol "="
  let value ← constant
  separator
  return .constant name type value

def typedef : Parser Node := do
  keyword "typedef"
  let target ← type
  let name ← identifier
  annotations
  separator
  return .typedef name target

/-! ## Whole texts -/

def definition : Parser Node :=
  firstOf [inclusion, scope, constantDefinition, typedef, enum, senum, struct, exception, service]

/-- A comment between definitions, with its text trimmed. -/
def comment : Parser Node := do
  match Lexeme.comment? (← rest) with
  | some (whole, inner) =>
    advance whole.length
    return .comment (String.ofList (Text.trim inner))
  | none => failure

/-- The nodes up to the end of the text. Each takes at least a character. -/
def nodesUpTo : Nat → Parser (List Node)
  | 0 => failure
  | n + 1 => do
    skipBlanks
    if (← rest) matches [] then return []
    let node ← comment <|> definition
    return node :: (← nodesUpTo n)

end Parser

/-- Reads a source text. -/
def parse (source : String) : Except ParseError (List Node) :=
  let text := source.toList
  match (Parser.nodesUpTo (text.length + 1)) (State.ofText text) with
  | (some nodes, _) => .ok nodes
  | (none, s) => .error (.atCursor text s.furthest s.expected)

end ThriftRpc.Idl
