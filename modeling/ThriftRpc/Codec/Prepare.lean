import ThriftRpc.Codec.Coercion

/-!
# Preparing values

`prepare` coerces a value into the form a type demands, so that writing it cannot fail halfway.
The fields of a prepared struct stand in order of declaration, and no set holds two equal
elements.
-/

namespace ThriftRpc.Codec

def orMismatch (ty : Ty) (v : Value) : Option Value → Except Fault Value
  | some w => .ok w
  | none => .error (.mismatch ty.text v.kind)

/-- A struct value made of the declared fields that `field` finds. The struct must bear the
declared name, and every field `given` must be declared. -/
def assemble (d : StructDef) (name : String) (given : List String)
    (field : FieldDef → Except Fault (Option Value)) : Except Fault Value :=
  if name ≠ d.name then .error (.mismatch d.name ("struct " ++ name))
  else match given.find? fun f => (d.fieldNamed? f).isNone with
    | some f => .error (.unknownField d.name f)
    | none => do
      let fields ← d.fields.foldlM (fun done f => do
        match ← field f.2 with
        | some v => return Table.insert f.2.name v done
        | none => return done) []
      return .struct d.name fields

mutual

def prepare (s : Schema) (ty : Ty) (v : Value) : Except Fault Value := do
  match ← resolve s ty with
  | .prim p => orMismatch ty v (asPrimitive p v)
  | .enum d => orMismatch ty v (asEnum d v)
  | .struct d =>
    match v with
    | .struct name fields => assemble d name (fields.map Prod.fst) fun f => prepareField s f fields
    | v => .error (.mismatch d.name v.kind)
  | .list elem =>
    match v with
    | .list items | .set items => .list <$> prepareItems s elem items
    | v => orMismatch ty v none
  | .set elem =>
    match v with
    | .list items | .set items => (.set ∘ Value.distinct) <$> prepareItems s elem items
    | v => orMismatch ty v none
  | .map key value =>
    match v with
    | .map entries => .map <$> prepareEntries s key value entries
    | v => orMismatch ty v none
termination_by structural v

def prepareItems (s : Schema) (elem : Ty) : List Value → Except Fault (List Value)
  | [] => .ok []
  | v :: vs => do return (← prepare s elem v) :: (← prepareItems s elem vs)
termination_by structural vs => vs

def prepareEntries (s : Schema) (key value : Ty) :
    List (Value × Value) → Except Fault (List (Value × Value))
  | [] => .ok []
  | (k, v) :: es => do
    let k ← prepare s key k
    let v ← prepare s value v
    return (k, v) :: (← prepareEntries s key value es)
termination_by structural es => es

/-- The prepared value of a field, if it is among the given ones. -/
def prepareField (s : Schema) (f : FieldDef) :
    List (String × Value) → Except Fault (Option Value)
  | [] => .ok none
  | (name, v) :: fs =>
    if name = f.name then some <$> prepare s f.type v else prepareField s f fs
termination_by structural fs => fs

end

def prepareStruct (s : Schema) (d : StructDef) : Value → Except Fault Value
  | .struct name fields => assemble d name (fields.map Prod.fst) fun f => prepareField s f fields
  | v => .error (.mismatch d.name v.kind)

end ThriftRpc.Codec
