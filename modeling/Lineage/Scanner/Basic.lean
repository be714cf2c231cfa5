import Lineage.Catalog.Query
import Lineage.Settings

namespace Lineage

/-- A place in a list of records; nothing where a record was dropped. -/
abbrev Slot := Option Record

structure Scanner where
  catalog : Catalog
  settings : Settings

namespace Scanner

def isPlainType (s : Scanner) (id : TypeId) : Except QueryError Bool := do
  let name ← s.catalog.typeName id
  pure (s.settings.isPlainName name)

def isPlain (s : Scanner) : Element → Except QueryError Bool
  | .type id => s.isPlainType id
  | .member id => do
    let decl ← s.catalog.memberDecl id
    s.isPlainType decl.declaring
  | .parameter _ _ => pure false

def isIgnorable (s : Scanner) (kind : TypeId) : Except QueryError Bool := do
  let name ← s.catalog.typeName kind
  pure (s.settings.isIgnorableName name)

end Scanner

end Lineage
