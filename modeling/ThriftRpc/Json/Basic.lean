import ThriftRpc.Double.Layout
import ThriftRpc.Text.Quoted

/-!
# JSON documents

Documents with the members of an object in a given order, and their text with an indent of two
spaces.
-/

namespace ThriftRpc

inductive Json where
  | null
  | bool (b : Bool)
  | int (n : Int)
  | double (x : Double)
  | string (s : String)
  | array (items : List Json)
  | object (members : List (String × Json))

namespace Json

/-- Numbers are written positionally from `1e-5` to below `1e16`, otherwise with a signed exponent;
of two equally near decimals the even one. -/
def numberLayout : Double.Layout where
  plainFrom := -5
  plainBelow := 16
  plus := true
  tie := .toEven

def ofOption {α : Type} (f : α → Json) : Option α → Json
  | some a => f a
  | none => null

def quoted (s : String) : String := Text.quoted Text.Quoted.document s

/-- A line break and the indent of a level. -/
def newline (level : Nat) : String := String.ofList ('\n' :: List.replicate (2 * level) ' ')

/-- The parts of an array or an object, one a line. -/
def block (opening closing : String) (level : Nat) (parts : List String) : String :=
  if parts = [] then opening ++ closing
  else
    opening ++ newline (level + 1) ++ ("," ++ newline (level + 1)).intercalate parts ++
      newline level ++ closing

mutual

/-- The text of a document at a level of nesting. There is no infinite number in a document. -/
def text (level : Nat) : Json → String
  | null => "null"
  | bool b => if b then "true" else "false"
  | int n => toString n
  | double x => if x.isFinite then x.render numberLayout else "null"
  | string s => quoted s
  | array items => block "[" "]" level (itemTexts (level + 1) items)
  | object members => block "\x7b" "\x7d" level (memberTexts (level + 1) members)
termination_by structural j => j

def itemTexts (level : Nat) : List Json → List String
  | [] => []
  | j :: js => j.text level :: itemTexts level js
termination_by structural js => js

def memberTexts (level : Nat) : List (String × Json) → List String
  | [] => []
  | (key, j) :: ms => (quoted key ++ ": " ++ j.text level) :: memberTexts level ms
termination_by structural ms => ms

end

def pretty (j : Json) : String := j.text 0

end Json

end ThriftRpc
