import Lineage.Ident

namespace Lineage

inductive QueryError where
  /-- The type is known by name but cannot be loaded. -/
  | typeNotPresent (name : String)
  | unknownType (id : TypeId)
  | unknownMember (id : MemberId)
  /-- A record has neither a value nor a default for an attribute. -/
  | missingAttribute (name kind : String)
  | inconsistent (reason : String)
deriving DecidableEq, Repr, Inhabited

def QueryError.message : QueryError → String
  | .typeNotPresent name => "Type not present: " ++ name
  | .unknownType id => "Unknown type: " ++ id.text
  | .unknownMember id => "Unknown member: " ++ id.text
  | .missingAttribute name kind =>
    "Missing value for attribute '" ++ name ++ "' in annotation [" ++ kind ++ "]"
  | .inconsistent reason => "Inconsistent type model: " ++ reason

end Lineage
