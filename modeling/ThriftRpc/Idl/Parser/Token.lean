import ThriftRpc.Double.Reading
import ThriftRpc.Idl.Lexeme
import ThriftRpc.Idl.ParseError
import ThriftRpc.Idl.Syntax
import ThriftRpc.Packrat.Memo

/-!
# Reading tokens

The state of a parser, the ways to combine parsers, and the parsers of single tokens. Every token
skips the blanks and comments before it. A token that is not there is noted if no earlier attempt
came further, so that an error can name everything that could have followed.
-/

namespace ThriftRpc.Idl

open Text (Cursor)
open Packrat (HasCursor Memo Slot)

structure State where
  cursor : Cursor
  furthest : Cursor
  /-- What could have followed at `furthest`, in the order it was tried. -/
  expected : List String := []
  fieldLists : Memo (List Field) := []
  functionLists : Memo (List Function) := []
  memberLists : Memo (List EnumMember) := []
  literalLists : Memo (List String) := []

namespace State

def ofText (source : List Char) : State := ⟨.ofText source, .ofText source, [], [], [], [], []⟩

/-- Notes that `token` could have followed at the cursor. -/
def note (s : State) (token : String) : State :=
  let s := if s.furthest.offset < s.cursor.offset then
    { s with furthest := s.cursor, expected := [] } else s
  if s.cursor.offset = s.furthest.offset ∧ token ∉ s.expected then
    { s with expected := s.expected ++ [token] }
  else s

end State

instance : HasCursor State where
  cursor := State.cursor
  moveTo c s := { s with cursor := c }

abbrev Parser (α : Type) := Packrat.Parser State α

namespace Parser

/-! ## Combining parsers -/

def rest : Parser (List Char) := return (← get).cursor.rest

def advance (n : Nat) : Parser Unit := modify fun s => { s with cursor := s.cursor.advance n }

def fail {α : Type} (token : String) : Parser α := do
  modify fun s => s.note token
  failure

/-- Runs a parser, going back to where it began if it fails. -/
def attempt {α : Type} (p : Parser α) : Parser α := fun s =>
  match p s with
  | (none, s') => (none, { s' with cursor := s.cursor })
  | result => result

/-- What a parser gives, or nothing; this never fails. -/
def optional? {α : Type} (p : Parser α) : Parser (Option α) :=
  (some <$> attempt p) <|> return none

/-- Whether a parser succeeds; this never fails. -/
def succeeds {α : Type} (p : Parser α) : Parser Bool := return (← optional? p).isSome

def repeatUpTo {α : Type} (n : Nat) (p : Parser α) : Parser (List α) :=
  match n with
  | 0 => return []
  | n + 1 => do
    match ← optional? p with
    | some a => return a :: (← repeatUpTo n p)
    | none => return []

/-- What a parser gives as often as it succeeds. It has to take a character each time, so the text
ahead bounds the repetition. -/
def many {α : Type} (p : Parser α) : Parser (List α) := do
  repeatUpTo ((← rest).length + 1) p

/-- The first of some parsers that succeeds, each tried from the same place. -/
def firstOf {α : Type} : List (Parser α) → Parser α
  | [] => failure
  | p :: ps => attempt p <|> firstOf ps

/-! ## Tokens -/

def skipBlanks : Parser Unit := do advance ((← rest).takeWhile Text.isBlank).length

def skipTrivia : Parser Unit := do advance (Lexeme.triviaWidth (← rest))

/-- A token that `recognise` finds behind the trivia, with the number of its characters. -/
def token {α : Type} (what : String) (recognise : List Char → Option (α × Nat)) : Parser α := do
  skipTrivia
  match recognise (← rest) with
  | some (a, n) =>
    advance n
    return a
  | none => fail what

def keyword (word : String) : Parser Unit :=
  token (quote word) fun s => if Lexeme.keyword word s then some ((), word.length) else none

def symbol (text : String) : Parser Unit :=
  token (quote text) fun s =>
    if text.toList.isPrefixOf s then some ((), text.length) else none

def identifier : Parser String :=
  token "identifier" fun s => (Lexeme.identifier? s).map fun m => (String.ofList m, m.length)

def double : Parser Double :=
  token "double" fun s => do
    let m ← Lexeme.double? s
    return (← Double.ofText? m, m.length)

def literal : Parser String :=
  token "string literal" fun s => (Lexeme.literal? s).map fun p => (String.ofList p.1, p.2)

def integerLexeme? (s : List Char) : Option (Int64 × Nat) := do
  let m ← Lexeme.hex? s <|> Lexeme.integer? s
  return (← Lexeme.integerValue? m, m.length)

/-- An integer, or `true` or `false` for 1 and 0. -/
def integer : Parser Int64 := do
  skipTrivia
  match integerLexeme? (← rest) with
  | some (n, width) =>
    advance width
    return n
  | none =>
    attempt (do keyword "true"; return 1)
      <|> attempt (do keyword "false"; return 0)
      <|> fail "integer"

/-- A comma or a semicolon, if there is one. -/
def separator : Parser Unit := do
  unless ← succeeds (symbol ",") do discard (succeeds (symbol ";"))

def annotation : Parser Unit := do
  discard identifier
  symbol "="
  discard literal
  separator

/-- Annotations in brackets, if there are any; they are dropped. -/
def annotations : Parser Unit :=
  discard (optional? do
    symbol "("
    discard (many annotation)
    symbol ")")

end Parser

end ThriftRpc.Idl
