import ThriftRpc.Text.Printable

/-!
# Quoted text

A text between double quotes, each character written through an escape rule. Two rules are used:
`shown` for messages, where everything invisible is spelled out, and `document` for JSON, where
only the quote, the backslash and the controls are.
-/

namespace ThriftRpc.Text

namespace Quoted

def hexDigits (n : Nat) : List Char := Nat.toDigits 16 n

/-- The escape rule of messages: an invisible character is written as its code point in hex. -/
def shown (c : Char) : List Char :=
  match c with
  | '"' => ['\\', '"']
  | '\\' => ['\\', '\\']
  | '\n' => ['\\', 'n']
  | '\t' => ['\\', 't']
  | '\r' => ['\\', 'r']
  | '\x00' => ['\\', '0']
  | c => if isPrintable c then [c] else ['\\', 'u', '{'] ++ hexDigits c.toNat ++ ['}']

/-- The escape rule of JSON: a control without a letter of its own takes four hex digits. -/
def document (c : Char) : List Char :=
  match c with
  | '"' => ['\\', '"']
  | '\\' => ['\\', '\\']
  | '\n' => ['\\', 'n']
  | '\t' => ['\\', 't']
  | '\r' => ['\\', 'r']
  | '\x08' => ['\\', 'b']
  | '\x0c' => ['\\', 'f']
  | c =>
    if c.toNat < 0x20 then
      let digits := hexDigits c.toNat
      ['\\', 'u'] ++ List.replicate (4 - digits.length) '0' ++ digits
    else [c]

end Quoted

/-- The text `s` in double quotes, each character written by `escape`. -/
def quoted (escape : Char → List Char) (s : String) : String :=
  String.ofList ('"' :: s.toList.flatMap escape ++ ['"'])

example : quoted Quoted.shown "a\"\x7f" = "\"a\\\"\\u\x7b7f\x7d\"" := by decide +kernel
example : quoted Quoted.document "a\"\x01" = "\"a\\\"\\u0001\"" := by decide +kernel

end ThriftRpc.Text
