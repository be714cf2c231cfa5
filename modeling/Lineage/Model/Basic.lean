import Lineage.Catalog.Basic

namespace Lineage.Model

structure SuperSpec where
  name : String
  args : List String := []

mutual

inductive ValueSpec where
  | bool (b : Bool)
  | int (i : Int)
  | float (x : Float)
  | string (s : String)
  | type (name : String)
  | enum (name constant : String)
  | record (r : RecordSpec)
  | array (items : List ValueSpec)

structure RecordSpec where
  kind : String
  values : List (String × ValueSpec)

end

instance : Inhabited ValueSpec := ⟨.bool false⟩

structure ParamSpec where
  name : String
  bound : Option String := none

structure MemberSpec where
  name : String
  visibility : Visibility := .everyone
  params : List String := []
  returns : Option String := none
  default : Option ValueSpec := none
  /-- The name of an earlier member of the same type. -/
  bridgeOf : Option String := none
  records : List RecordSpec := []
  /-- Records of parameters by position, in ascending order. -/
  paramRecords : List (Nat × List RecordSpec) := []

structure TypeSpec where
  name : String
  flavor : Flavor := .classType
  params : List ParamSpec := []
  superclass : Option SuperSpec := none
  interfaces : List SuperSpec := []
  enclosing : Option String := none
  inherited : Bool := false
  /-- The type is known by name only; nothing else that is said of it counts. -/
  absent : Bool := false
  records : List RecordSpec := []
  members : List MemberSpec := []

end Lineage.Model

namespace Lineage

structure Model where
  types : List Model.TypeSpec

end Lineage
