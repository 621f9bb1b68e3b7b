import ThriftRpc.Double.Basic
import ThriftRpc.Table

/-!
# Values

Dynamic data: what a schema describes and the codec reads and writes. The fields of a struct are
a table, so an absent field and a field that is false stay apart. `equal` compares as numbers,
elements in order, and struct fields in any order.
-/

namespace ThriftRpc

inductive Value where
  | bool (b : Bool)
  | byte (n : Int8)
  | i16 (n : Int16)
  | i32 (n : Int32)
  | i64 (n : Int64)
  | double (x : Double)
  | string (s : String)
  | binary (bytes : List UInt8)
  | list (items : List Value)
  | set (items : List Value)
  | map (entries : List (Value × Value))
  | enum (name member : String)
  | struct (name : String) (fields : List (String × Value))
  deriving Inhabited

namespace Value

/-- The code of an enum whose number no member owns. -/
def unknownCode : Int32 := -1

/-- What kind of value it is, as messages say it. -/
def kind : Value → String
  | bool _ => "bool"
  | byte _ => "byte"
  | i16 _ => "i16"
  | i32 _ => "i32"
  | i64 _ => "i64"
  | double _ => "double"
  | string _ => "string"
  | binary _ => "binary"
  | list _ => "list"
  | set _ => "set"
  | map _ => "map"
  | enum name _ => "enum " ++ name
  | struct name _ => "struct " ++ name

/-! ## Equality -/

mutual

def equal : Value → Value → Bool
  | bool a, bool b => a == b
  | byte a, byte b => a == b
  | i16 a, i16 b => a == b
  | i32 a, i32 b => a == b
  | i64 a, i64 b => a == b
  | double a, double b => a.equal b
  | string a, string b => a == b
  | binary a, binary b => a == b
  | list a, list b => equalItems a b
  | set a, set b => equalItems a b
  | map a, map b => equalEntries a b
  | enum n a, enum m b => n == m && a == b
  | struct n a, struct m b => n == m && a.length == b.length && fieldsWithin a b
  | _, _ => false
termination_by structural v => v

def equalItems : List Value → List Value → Bool
  | [], [] => true
  | a :: as, b :: bs => equal a b && equalItems as bs
  | _, _ => false
termination_by structural vs => vs

def equalEntries : List (Value × Value) → List (Value × Value) → Bool
  | [], [] => true
  | (k, a) :: as, (l, b) :: bs => equal k l && equal a b && equalEntries as bs
  | _, _ => false
termination_by structural es => es

/-- Every field of the first table has an equal one in the second. -/
def fieldsWithin : List (String × Value) → List (String × Value) → Bool
  | [], _ => true
  | (k, a) :: as, bs =>
    (match Table.find? k bs with
      | some b => equal a b
      | none => false) && fieldsWithin as bs
termination_by structural fs => fs

end

/-- Adds a value to the elements of a set, unless an equal one is there. -/
def insertItem (items : List Value) (v : Value) : List Value :=
  if items.any (·.equal v) then items else items ++ [v]

/-- The elements of a set, each kept where it first occurs. -/
def distinct (items : List Value) : List Value := items.foldl insertItem []

/-! ## Access, with a plain answer for other kinds -/

def asBool : Value → Bool
  | bool b => b
  | _ => false

def asByte : Value → Int8
  | byte n => n
  | _ => 0

def asI32 : Value → Int32
  | i32 n => n
  | _ => 0

/-- The integer of any integer kind. -/
def integer? : Value → Option Int
  | byte n => some n.toInt
  | i16 n => some n.toInt
  | i32 n => some n.toInt
  | i64 n => some n.toInt
  | _ => none

def asInteger (v : Value) : Int := v.integer?.getD 0

def asDouble : Value → Double
  | double x => x
  | _ => Double.zero

/-- A text, or the member name of an enum. -/
def asString : Value → String
  | string s => s
  | enum _ member => member
  | _ => ""

def asEnum : Value → String × String
  | enum name member => (name, member)
  | _ => ("", "")

def items : Value → List Value
  | list vs => vs
  | set vs => vs
  | _ => []

def size : Value → Nat
  | list vs => vs.length
  | set vs => vs.length
  | map es => es.length
  | _ => 0

def isEmpty (v : Value) : Bool := v.size == 0

/-- The element of a list or set at a position. -/
def item? (v : Value) (i : Nat) : Option Value := v.items[i]?

/-- The value under a key of a map. -/
def lookup? (v key : Value) : Option Value :=
  match v with
  | map entries => (entries.find? fun e => e.1.equal key).map Prod.snd
  | _ => none

/-! ## Struct fields and growth; other kinds stay as they are -/

def get? (v : Value) (field : String) : Option Value :=
  match v with
  | struct _ fields => Table.find? field fields
  | _ => none

def put (v : Value) (field : String) (w : Value) : Value :=
  match v with
  | struct name fields => struct name (Table.insert field w fields)
  | v => v

def remove (v : Value) (field : String) : Value :=
  match v with
  | struct name fields => struct name (Table.erase field fields)
  | v => v

/-- Appends to a list, and to a set that holds no equal value. -/
def push (v w : Value) : Value :=
  match v with
  | list vs => list (vs ++ [w])
  | set vs => set (insertItem vs w)
  | v => v

end Value

end ThriftRpc
