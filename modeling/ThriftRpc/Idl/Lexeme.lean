import ThriftRpc.Text.Blank
import ThriftRpc.Text.Numeral

/-!
# Lexemes

The tokens of an interface definition, each recognised at the start of a text. A recogniser
answers with the characters it matched; comments answer with the whole and with what is inside.
-/

namespace ThriftRpc.Idl.Lexeme

open Text (isBlank splitSign digitsValue)

/-- A character that may continue a name, so a word followed by it is the start of a longer
name. -/
def isNameChar (c : Char) : Bool := c.isAlphanum || c = '_' || c = '.'

def isHexDigit (c : Char) : Bool :=
  c.isDigit || ('a' ≤ c && c ≤ 'f') || ('A' ≤ c && c ≤ 'F')

/-- A match that must not be empty. -/
def nonempty? (matched : List Char) : Option (List Char) :=
  if matched = [] then none else some matched

def blanks? (s : List Char) : Option (List Char) := nonempty? (s.takeWhile isBlank)

/-- The digits at the start, of which there must be one. -/
def digits? (s : List Char) : Option (List Char) := nonempty? (s.takeWhile Char.isDigit)

/-- The sign at the start, if there is one. -/
def sign : List Char → List Char
  | c :: _ => if c = '+' ∨ c = '-' then [c] else []
  | [] => []

def integer? (s : List Char) : Option (List Char) := do
  let sg := sign s
  return sg ++ (← digits? (s.drop sg.length))

/-- The digits behind `0x`. -/
def hexDigits? : List Char → Option (List Char)
  | '0' :: 'x' :: s => nonempty? (s.takeWhile isHexDigit)
  | _ => none

def hex? (s : List Char) : Option (List Char) := (hexDigits? s).map (['0', 'x'] ++ ·)

def exponent? : List Char → Option (List Char)
  | c :: s => if c = 'e' ∨ c = 'E' then (integer? s).map (c :: ·) else none
  | [] => none

/-- A point, digits, and an exponent if there is one. -/
def fraction? : List Char → Option (List Char)
  | '.' :: s => (digits? s).map fun ds => '.' :: ds ++ (exponent? (s.drop ds.length)).getD []
  | _ => none

/-- A number with a fraction, an exponent, or both. -/
def double? (s : List Char) : Option (List Char) :=
  let sg := sign s
  let rest := s.drop sg.length
  match digits? rest with
  | some ds =>
    let rest := rest.drop ds.length
    (fraction? rest <|> exponent? rest).map fun tail => sg ++ ds ++ tail
  | none => (fraction? rest).map (sg ++ ·)

def identifier? : List Char → Option (List Char)
  | c :: s => if c.isAlpha ∨ c = '_' then some (c :: s.takeWhile isNameChar) else none
  | [] => none

/-- What precedes the first `*/`, if there is one. -/
def upToClose? : List Char → Option (List Char)
  | '*' :: '/' :: _ => some []
  | c :: s => (upToClose? s).map (c :: ·)
  | [] => none

/-- A comment between `/*` and the next `*/`. -/
def blockComment? : List Char → Option (List Char × List Char)
  | '/' :: '*' :: s => (upToClose? s).map fun inner => (['/', '*'] ++ inner ++ ['*', '/'], inner)
  | _ => none

/-- A comment from `#` or `//` up to the end of the line. -/
def lineComment? (s : List Char) : Option (List Char × List Char) :=
  let line := List.takeWhile (· != '\n')
  match s with
  | '#' :: s => some ('#' :: line s, line s)
  | '/' :: '/' :: s => some (['/', '/'] ++ line s, line s)
  | _ => none

def comment? (s : List Char) : Option (List Char × List Char) := blockComment? s <|> lineComment? s

/-- The text starts with `word`, and not with a longer name. -/
def keyword (word : String) (s : List Char) : Bool :=
  word.toList.isPrefixOf s &&
    match s.drop word.length with
    | c :: _ => !isNameChar c
    | [] => true

/-! ## Values of integer lexemes -/

def hexValue (ds : List Char) : Nat :=
  ds.foldl (fun n c => 16 * n +
    if c.isDigit then c.toNat - '0'.toNat else c.toLower.toNat - 'a'.toNat + 10) 0

/-- The integer of 64 bits that a text denotes: in hex if it starts so, else decimal as a whole. -/
def integerValue? (s : List Char) : Option Int64 :=
  let n := match hexDigits? s with
    | some ds => some (hexValue ds : Int)
    | none => Text.integer? s
  match n with
  | some n =>
    if -0x8000000000000000 ≤ n ∧ n ≤ 0x7FFFFFFFFFFFFFFF then some (.ofInt n) else none
  | none => none

example : integerValue? ['0', 'x', '1', 'F'] = some 31 := by decide

/-! ## Text literals -/

/-- The character that an escape stands for. -/
def unescape? : Char → Option Char
  | 'r' => some '\r'
  | 'n' => some '\n'
  | 't' => some '\t'
  | '"' => some '"'
  | '\'' => some '\''
  | '\\' => some '\\'
  | _ => none

/-- The text up to the closing quote, and how many characters it takes with that quote. A
backslash before a character that it does not escape stands for itself. -/
def literalBody? (quote : Char) : List Char → Option (List Char × Nat)
  | [] => none
  | '\\' :: c :: s =>
    match unescape? c with
    | some e => (literalBody? quote s).map fun p => (e :: p.1, p.2 + 2)
    | none => (literalBody? quote (c :: s)).map fun p => ('\\' :: p.1, p.2 + 1)
  | c :: s =>
    if c = quote then some ([], 1) else (literalBody? quote s).map fun p => (c :: p.1, p.2 + 1)

/-- A text between two quotes of a kind, and how many characters the literal takes. -/
def literal? : List Char → Option (List Char × Nat)
  | c :: s =>
    if c = '"' ∨ c = '\'' then (literalBody? c s).map fun p => (p.1, p.2 + 1) else none
  | [] => none

/-! ## Trivia -/

theorem length_pos_of_comment? {s : List Char} {p : List Char × List Char}
    (h : comment? s = some p) : 0 < p.1.length ∧ s ≠ [] := by
  refine ⟨?_, fun hs => by subst hs; simp [comment?, blockComment?, lineComment?] at h⟩
  simp only [comment?, Option.orElse_eq_orElse, Option.orElse_eq_or, Option.or_eq_some_iff] at h
  rcases h with h | ⟨-, h⟩
  · unfold blockComment? at h
    split at h
    · obtain ⟨inner, -, rfl⟩ := Option.map_eq_some_iff.1 h
      simp
    · simp at h
  · unfold lineComment? at h
    simp only at h
    split at h <;> simp at h <;> subst h <;> simp

/-- How many characters at the start are blanks and comments. -/
def triviaWidth (s : List Char) : Nat :=
  let blank := (s.takeWhile isBlank).length
  match h : comment? (s.drop blank) with
  | some (whole, _) =>
    have := length_pos_of_comment? h
    blank + whole.length + triviaWidth (s.drop (blank + whole.length))
  | none => blank
termination_by s.length
decreasing_by
  have hs : 0 < s.length := List.length_pos_iff.2 fun hs => by subst hs; simp at this
  rw [List.length_drop]
  have : 0 < whole.length := this.1
  omega

end ThriftRpc.Idl.Lexeme
