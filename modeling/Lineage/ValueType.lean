import Lineage.Ident

namespace Lineage

inductive ValueType where
  | void
  | bool
  | int
  | float
  | string
  | type
  | enum (id : TypeId)
  | record (kind : TypeId)
  | array (item : ValueType)
deriving DecidableEq, Repr, Inhabited

namespace ValueType

/-- A value that names types is only found unreadable when it is read. An array counts only if its
    items are types: an array of enumeration constants does not. -/
def isDeferred : ValueType → Bool
  | .type | .enum _ | .array .type => true
  | _ => false

def isNested : ValueType → Bool
  | .record _ | .array (.record _) => true
  | _ => false

def text : ValueType → String
  | .void => "void"
  | .bool => "bool"
  | .int => "int"
  | .float => "float"
  | .string => "string"
  | .type => "type"
  | .enum id => "enum:" ++ id.text
  | .record kind => "record:" ++ kind.text
  | .array item => item.text ++ "[]"

end ValueType

end Lineage
