import Lineage.Catalog.Query

namespace Lineage

inductive Strategy where
  /-- The element alone. -/
  | direct
  /-- A type and its superclasses; of these only records of kinds that are inherited. -/
  | inherited
  /-- A type and its superclasses. -/
  | superclass
  /-- A type, its interfaces and its superclasses. -/
  | hierarchy
  /-- A type, its interfaces, its superclasses and the types around it. -/
  | enclosing
deriving DecidableEq, Repr, Inhabited

namespace Strategy

def all : List Strategy := [direct, inherited, superclass, hierarchy, enclosing]

def name : Strategy → String
  | .direct => "direct"
  | .inherited => "inherited"
  | .superclass => "superclass"
  | .hierarchy => "type-hierarchy"
  | .enclosing => "enclosing"

def ofName? (word : String) : Option Strategy := all.find? (·.name = word)

def unknownMessage (word : String) : String :=
  "unknown search strategy '" ++ word ++ "' (expected one of: " ++
    ", ".intercalate (all.map name) ++ ")"

end Strategy

namespace Catalog

def isTopType (c : Catalog) (id : TypeId) (strategy : Strategy) : Except QueryError Bool := do
  if id = root then pure true
  else
    let above ← c.superclass id
    if above.all (· = root) then
      let interfaces ← c.interfaces id
      if interfaces.isEmpty && strategy = .enclosing then
        let outer ← c.enclosing id
        pure outer.isNone
      else pure interfaces.isEmpty
    else pure false

def isWithoutHierarchy (c : Catalog) (strategy : Strategy) :
    Element → Except QueryError Bool
  | .type id => c.isTopType id strategy
  | .member id => do
    let decl ← c.memberDecl id
    if decl.isPrivate then pure true else c.isTopType decl.declaring strategy
  | .parameter _ _ => pure true

end Catalog

end Lineage
