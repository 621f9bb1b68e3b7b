import ThriftRpc.Double.Digits

/-!
# Writing doubles

A `Layout` holds the decisions of an output format: which magnitudes are written positionally,
how an exponent is signed, and how ties between equally short decimals go. `Double.render`
applies one to a value.
-/

namespace ThriftRpc.Double

/-- The decisions of a number format. The exponent meant is that of the leading digit. -/
structure Layout where
  /-- The least exponent that is written positionally. -/
  plainFrom : Int
  /-- The least exponent above it that is not. -/
  plainBelow : Int
  /-- A positive exponent carries its sign. -/
  plus : Bool
  tie : Tie

def digitList (n : Nat) : List Char := Nat.toDigits 10 n

/-- Positional notation, with at least one digit on each side of the point. -/
def Decimal.plain (d : Decimal) : List Char :=
  let ds := digitList d.digits
  if 0 ≤ d.exponent then ds ++ List.replicate d.exponent.toNat '0' ++ ['.', '0']
  else
    let places := (-d.exponent).toNat
    let padded := List.replicate (places + 1 - ds.length) '0' ++ ds
    padded.take (padded.length - places) ++ '.' :: padded.drop (padded.length - places)

/-- Scientific notation, with a point only if there is more than one digit. -/
def Decimal.scientific (plus : Bool) (d : Decimal) : List Char :=
  let ds := digitList d.digits
  let e := d.exponent + (ds.length - 1 : Nat)
  let mantissa := match ds with
    | [] => []
    | [c] => [c]
    | c :: more => c :: '.' :: more
  let sign := if e < 0 then ['-'] else if plus then ['+'] else []
  mantissa ++ 'e' :: sign ++ digitList e.natAbs

def Decimal.text (layout : Layout) (d : Decimal) : List Char :=
  let e := d.exponent + ((digitList d.digits).length - 1 : Nat)
  if layout.plainFrom ≤ e ∧ e < layout.plainBelow then d.plain else d.scientific layout.plus

/-- The text of a value. A zero keeps its sign. -/
def render (layout : Layout) (x : Double) : String :=
  if x.isNaN then "NaN"
  else
    let sign := if x.isNegative then ['-'] else []
    let body :=
      if !x.isFinite then ['i', 'n', 'f']
      else if x.isZero then ['0', '.', '0']
      else (x.shortest layout.tie).text layout
    String.ofList (sign ++ body)

end ThriftRpc.Double
