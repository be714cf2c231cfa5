namespace Lineage

inductive ModelError where
  /-- The text is no model. -/
  | malformed
  | unknownTypeName (name context : String)
  | duplicateType (name : String)
  | invalidValueType (text : String)
  | unknownMemberName (name owner : String)
deriving DecidableEq, Repr, Inhabited

namespace ModelError

def malformedDetail : String := "the text does not describe a list of types"

def message : ModelError → String
  | .malformed => "Invalid model: " ++ malformedDetail
  | .unknownTypeName name context =>
    "Unknown type name '" ++ name ++ "' referenced from " ++ context
  | .duplicateType name => "Duplicate type name '" ++ name ++ "'"
  | .invalidValueType text => "Invalid value type '" ++ text ++ "'"
  | .unknownMemberName name owner => "Unknown member '" ++ name ++ "' on " ++ owner

end ModelError

end Lineage
