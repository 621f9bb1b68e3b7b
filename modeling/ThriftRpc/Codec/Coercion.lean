import ThriftRpc.Codec.Shape
import ThriftRpc.Double.Reading
import ThriftRpc.Text.Blank
import ThriftRpc.Value.Text

/-!
# Coercions

How scalars turn into one another: integers by range, texts by what they say. `none` means that
there is no such value.
-/

namespace ThriftRpc.Codec

/-- A text is true if it starts with `1`, `y`, `t` or `on`. -/
def truth (s : String) : Bool :=
  match s.toList with
  | '1' :: _ | 'y' :: _ | 't' :: _ | 'o' :: 'n' :: _ => true
  | _ => false

/-- The integer fits a signed word of so many bits. -/
def fits (bits : Nat) (n : Int) : Bool :=
  let bound : Int := Nat.pow 2 (bits - 1)
  n < bound && -bound ≤ n

/-- The integer of 64 bits that a text denotes, blanks around it aside. -/
def integerText? (s : String) : Option Int :=
  (Text.integer? (Text.trim s.toList)).filter (fits 64)

def doubleText? (s : String) : Option Double := Double.ofText? (Text.trim s.toList)

/-- An integer as a value of an integer type, if it fits. -/
def narrow : Primitive → Int → Option Value
  | .byte, n => if fits 8 n then some (.byte (.ofInt n)) else none
  | .i16, n => if fits 16 n then some (.i16 (.ofInt n)) else none
  | .i32, n => if fits 32 n then some (.i32 (.ofInt n)) else none
  | .i64, n => if fits 64 n then some (.i64 (.ofInt n)) else none
  | _, _ => none

/-- The member that owns a code. -/
def enumOfCode (d : EnumDef) (n : Int) : Option Value :=
  if fits 32 n then (d.memberOf? (.ofInt n)).map (.enum d.name) else none

/-- A member named by a text, or else by the code the text denotes. -/
def enumOfText (d : EnumDef) (s : String) : Option Value :=
  if s ∈ d.members then some (.enum d.name s) else (integerText? s).bind (enumOfCode d)

/-- The value of a shape that a text denotes. -/
def ofText : Shape → String → Option Value
  | .prim .bool, s => some (.bool (truth s))
  | .prim .double, s => (doubleText? s).map .double
  | .prim .string, s => some (.string s)
  | .prim .binary, s => some (.binary (Text.Utf8.encode s))
  | .prim p, s => (integerText? s).bind (narrow p)
  | .enum d, s => enumOfText d s
  | _, _ => none

/-- The integer that a value gives where an integer type is expected. A finite double is cut to
its integer part; `2 ^ 63` counts as the greatest integer of 64 bits. -/
def integerOf? : Value → Option Int
  | .string s => integerText? s
  | .double x =>
    let n := x.truncated
    if x.isFinite && -0x8000000000000000 ≤ n && n ≤ 0x8000000000000000 then
      some (min n 0x7FFFFFFFFFFFFFFF)
    else none
  | v => v.integer?

/-- A value as one of a base type. -/
def asPrimitive (p : Primitive) (v : Value) : Option Value :=
  match p, v with
  | .bool, .bool b => some (.bool b)
  | .bool, .string s => some (.bool (truth s))
  | .bool, v => v.integer?.map fun n => .bool (n != 0)
  | .double, .double x => some (.double x)
  | .double, .string s => (doubleText? s).map .double
  | .double, v => v.integer?.map fun n => .double (.ofInt n)
  | .string, .binary bytes => (Text.Utf8.decode bytes).toOption.map .string
  | .string, v => v.text?.map .string
  | .binary, .binary bytes => some (.binary bytes)
  | .binary, .string s => some (.binary (Text.Utf8.encode s))
  | .binary, _ => none
  | p, v => (integerOf? v).bind (narrow p)

/-- A value as one of an enum. The code that stands for an unknown member is kept. -/
def asEnum (d : EnumDef) : Value → Option Value
  | .enum name member =>
    if name = d.name ∧ member ∈ d.members then some (.enum name member) else none
  | .string s => enumOfText d s
  | .i32 n => if n = Value.unknownCode then some (.i32 n) else enumOfCode d n.toInt
  | v => v.integer?.bind (enumOfCode d)

end ThriftRpc.Codec
