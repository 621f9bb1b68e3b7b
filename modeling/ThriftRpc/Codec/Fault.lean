import ThriftRpc.Wire.Fault

/-!
# Codec faults

Why a value does not fit a type, or could not be written or read.
-/

namespace ThriftRpc.Codec

inductive Fault where
  | mismatch (expected found : String)
  | unknownType (name : String)
  | unknownField (owner field : String)
  | missingField (name : String)
  | wire (fault : Wire.Fault)

def Fault.message : Fault → String
  | mismatch expected found => s!"Type mismatch: expected {expected}, got {found}"
  | unknownType name => s!"Unknown type: {name}"
  | unknownField owner field => s!"Unknown field {field} on {owner}"
  | missingField name => s!"Missing required field \"{name}\""
  | wire fault => fault.message

end ThriftRpc.Codec
