import ThriftRpc.Text.Cursor
import ThriftRpc.Text.Place
import ThriftRpc.Text.Quoted

/-!
# Syntax errors

Where the furthest attempt to read a source text stopped, what would have let it go on, and what
stood there.
-/

namespace ThriftRpc.Idl

open Text (Cursor Place)

structure ParseError where
  place : Place
  expected : String
  found : String

/-- Words and symbols are shown in quotes. -/
def quote (s : String) : String := Text.quoted Text.Quoted.document s

namespace ParseError

/-- The error of having come as far as `furthest`, where one of `expected` could have followed. -/
def atCursor (source : List Char) (furthest : Cursor) (expected : List String) : ParseError where
  place := .after (source.take furthest.offset)
  expected := if expected = [] then "definition" else " or ".intercalate expected
  found :=
    match furthest.rest with
    | c :: _ => quote (String.singleton c)
    | [] => "end of input"

def message (e : ParseError) : String :=
  s!"Parse error at line {e.place.line}, column {e.place.column}: " ++
    s!"expected {e.expected}, found {e.found}"

end ParseError

end ThriftRpc.Idl
