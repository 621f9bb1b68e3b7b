import ThriftRpc.Idl.Parser.Token

/-!
# Reading types and constants

Both nest. A level of nesting takes at least a character, so the text ahead bounds the depth.
-/

namespace ThriftRpc.Idl.Parser

/-! ## Types -/

/-- The name of a type of another language, if there is one; it is dropped. -/
def foreignType : Parser Unit :=
  discard (optional? do
    keyword "cpp_type"
    literal)

def mapType (inner : Parser Ty) : Parser Ty := do
  keyword "map"
  foreignType
  symbol "<"
  let key ← inner
  symbol ","
  let value ← inner
  symbol ">"
  return .map key value

def setType (inner : Parser Ty) : Parser Ty := do
  keyword "set"
  foreignType
  symbol "<"
  let elem ← inner
  symbol ">"
  return .set elem

def listType (inner : Parser Ty) : Parser Ty := do
  keyword "list"
  symbol "<"
  let elem ← inner
  symbol ">"
  foreignType
  return .list elem

/-- A base type or a name. -/
def simpleType : Parser Ty := do
  let name ← identifier
  match Primitive.ofKeyword? name with
  | some p => return .prim p
  | none => return .named name

def typeWithin : Nat → Parser Ty
  | 0 => failure
  | depth + 1 => do
    let inner := typeWithin depth
    let t ← firstOf [mapType inner, setType inner, listType inner] <|> simpleType
    annotations
    return t

def type : Parser Ty := do typeWithin ((← rest).length + 1)

/-! ## Constants -/

def listConstant (inner : Parser Const) : Parser Const := do
  symbol "["
  let items ← many do
    let v ← inner
    separator
    return v
  symbol "]"
  return .list items

def mapConstant (inner : Parser Const) : Parser Const := do
  symbol "\x7b"
  let entries ← many do
    let key ← inner
    symbol ":"
    let value ← inner
    separator
    return (key, value)
  symbol "\x7d"
  return .map entries

def constantWithin : Nat → Parser Const
  | 0 => failure
  | depth + 1 =>
    let inner := constantWithin depth
    firstOf [.double <$> double, .int <$> integer, .string <$> literal,
      .identifier <$> identifier, listConstant inner, mapConstant inner]

def constant : Parser Const := do constantWithin ((← rest).length + 1)

end ThriftRpc.Idl.Parser
