import ThriftRpc.Double.Layout
import ThriftRpc.Text.Quoted
import ThriftRpc.Value.Basic

/-!
# Values as text

Two forms: `Value.text?`, what is sent where a string is expected and the value is a scalar, and
`Value.shown`, what messages show of any value.
-/

namespace ThriftRpc.Value

/-- Doubles are written positionally from `0.0001` to below `1e16`, otherwise with a bare
exponent; of two equally near decimals the upper one. -/
def numberLayout : Double.Layout where
  plainFrom := -4
  plainBelow := 16
  plus := false
  tie := .up

def boolText (b : Bool) : String := if b then "true" else "false"

/-- The text of a scalar, and the member name of an enum. -/
def text? : Value → Option String
  | bool b => some (boolText b)
  | byte n => some (toString n.toInt)
  | i16 n => some (toString n.toInt)
  | i32 n => some (toString n.toInt)
  | i64 n => some (toString n.toInt)
  | double x => some (x.render numberLayout)
  | string s => some s
  | enum _ member => some member
  | _ => none

/-- Texts with a comma between them. -/
def commas (parts : List String) : String := ", ".intercalate parts

mutual

def shown : Value → String
  | bool b => boolText b
  | byte n => toString n.toInt
  | i16 n => toString n.toInt
  | i32 n => toString n.toInt
  | i64 n => toString n.toInt
  | double x => x.render numberLayout
  | string s => Text.quoted Text.Quoted.shown s
  | binary bytes => "b[" ++ commas (bytes.map fun b => toString b.toNat) ++ "]"
  | list items => "[" ++ commas (shownItems items) ++ "]"
  | set items => "\x7b" ++ commas (shownItems items) ++ "\x7d"
  | map entries => "\x7b" ++ commas (shownEntries entries) ++ "\x7d"
  | enum name member => name ++ "::" ++ member
  | struct name fields => name ++ " \x7b" ++ commas (shownFields fields) ++ "\x7d"
termination_by structural v => v

def shownItems : List Value → List String
  | [] => []
  | v :: vs => v.shown :: shownItems vs
termination_by structural vs => vs

def shownEntries : List (Value × Value) → List String
  | [] => []
  | (k, v) :: es => (k.shown ++ " => " ++ v.shown) :: shownEntries es
termination_by structural es => es

def shownFields : List (String × Value) → List String
  | [] => []
  | (field, v) :: fs => (field ++ ": " ++ v.shown) :: shownFields fs
termination_by structural fs => fs

end

end ThriftRpc.Value
