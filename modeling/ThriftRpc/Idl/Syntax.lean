import ThriftRpc.Schema.Basic

/-!
# The syntax of interface definitions

A source text is a list of nodes, in order: comments between definitions, headers, and
definitions.
-/

namespace ThriftRpc.Idl

structure Field where
  index : Option Int64
  requiredness : Option Requiredness
  type : Ty
  name : String
  default : Option Const

structure Function where
  name : String
  returns : Option Ty
  arguments : List Field
  throws : List Field
  oneway : Bool

structure EnumMember where
  name : String
  value : Option Int64

inductive Node where
  | comment (text : String)
  /-- A namespace for one language, or for all of them. -/
  | scope (lang : Option String) (name : String)
  | inclusion (path : String)
  | constant (name : String) (type : Ty) (value : Const)
  | typedef (name : String) (target : Ty)
  | enum (name : String) (members : List EnumMember)
  /-- An enum of texts, which as a type is a text. -/
  | senum (name : String) (values : List String)
  | struct (kind : StructKind) (name : String) (fields : List Field)
  | exception (name : String) (fields : List Field)
  | service (name : String) (parent : Option String) (functions : List Function)

/-- The name that a node defines, if it is a definition. -/
def Node.definedName? : Node → Option String
  | constant name _ _ | typedef name _ | enum name _ | senum name _ | struct _ name _
  | exception name _ | service name _ _ => some name
  | comment _ | scope _ _ | inclusion _ => none

end ThriftRpc.Idl
