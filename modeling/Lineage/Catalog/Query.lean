import Lineage.Catalog.Basic
import Lineage.QueryError

namespace Lineage.Catalog

def typeDecl (c : Catalog) (id : TypeId) : Except QueryError TypeDecl :=
  match c.type? id with
  | some decl => .ok decl
  | none => .error (.unknownType id)

def memberDecl (c : Catalog) (id : MemberId) : Except QueryError MemberDecl :=
  match c.member? id with
  | some decl => .ok decl
  | none => .error (.unknownMember id)

def typeName (c : Catalog) (id : TypeId) : Except QueryError String := do
  let decl ← c.typeDecl id
  pure decl.name

def load (c : Catalog) (id : TypeId) : Except QueryError TypeDecl := do
  let decl ← c.typeDecl id
  if decl.present then pure decl else throw (.typeNotPresent decl.name)

def loadMember (c : Catalog) (id : MemberId) : Except QueryError MemberDecl := do
  let decl ← c.memberDecl id
  let _ ← c.load decl.declaring
  pure decl

def isPresent (c : Catalog) (id : TypeId) : Bool := (c.type? id).any (·.present)

def isInherited (c : Catalog) (kind : TypeId) : Bool := (c.type? kind).any (·.inherited)

def loadTarget (c : Catalog) (target : TypeId) : Except QueryError TypeId := do
  let _ ← c.load target
  pure target

def superclass (c : Catalog) (id : TypeId) : Except QueryError (Option TypeId) := do
  match (← c.load id).superclass with
  | some ref => some <$> c.loadTarget ref.target
  | none => pure none

def interfaces (c : Catalog) (id : TypeId) : Except QueryError (List TypeId) := do
  (← c.load id).interfaces.mapM fun ref => c.loadTarget ref.target

def enclosing (c : Catalog) (id : TypeId) : Except QueryError (Option TypeId) := do
  match (← c.load id).enclosing with
  | some outer => some <$> c.loadTarget outer
  | none => pure none

def recordsOf (c : Catalog) (e : Element) : List Record :=
  (c.records.filterMap fun (on, r) => if on = e then some r else none).filter (c.isPresent ·.kind)

def loadElement (c : Catalog) : Element → Except QueryError Unit
  | .type id => do
    let _ ← c.load id
  | .member id => do
    let _ ← c.loadMember id
  | .parameter owner index => do
    let decl ← c.loadMember owner
    if index < decl.params.length then pure ()
    else throw (.inconsistent
      ("parameter " ++ index.repr ++ " out of range for member '" ++ decl.name ++ "'"))

def declaredRecords (c : Catalog) (e : Element) : Except QueryError (List Record) := do
  c.loadElement e
  pure (c.recordsOf e)

def ancestorsWithin (c : Catalog) : Nat → TypeId → Except QueryError (List TypeId)
  | 0, _ => pure []
  | fuel + 1, id => do
    match ← c.superclass id with
    | some above => (above :: ·) <$> c.ancestorsWithin fuel above
    | none => pure []

/-- No chain without a cycle is longer than the catalog has types. -/
def ancestors (c : Catalog) (id : TypeId) : Except QueryError (List TypeId) :=
  c.ancestorsWithin c.typeCount id

def inherit (c : Catalog) (visible : List Record) (r : Record) : List Record :=
  if c.isInherited r.kind && !visible.any (·.kind = r.kind) then visible ++ [r] else visible

def visibleRecords (c : Catalog) (id : TypeId) : Except QueryError (List Record) := do
  let own ← c.declaredRecords (.type id)
  let above ← c.ancestors id
  pure (above.foldl (fun visible ancestor =>
    (c.recordsOf (.type ancestor)).foldl c.inherit visible) own)

def declaredMembers (c : Catalog) (id : TypeId) : Except QueryError (List MemberId) := do
  let _ ← c.load id
  pure (c.memberIds id)

def bridged (c : Catalog) (id : MemberId) : Except QueryError MemberId := do
  let decl ← c.memberDecl id
  pure (decl.bridgeOf.getD id)

def readAttribute (c : Catalog) (r : Record) (accessor : MemberId) :
    Except QueryError Value := do
  let decl ← c.memberDecl accessor
  match (r.value? decl.name).or decl.default with
  | some value =>
    value.typeRefs.forM fun id => do
      let _ ← c.load id
    pure value
  | none =>
    let kind := match c.type? r.kind with
      | some kind => kind.name
      | none => "<unknown>"
    throw (.missingAttribute decl.name kind)

end Lineage.Catalog
