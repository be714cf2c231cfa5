import Lineage.Catalog.Query

namespace Lineage

structure Accessor where
  member : MemberId
  name : String
  type : ValueType
  default : Option Value

structure AttributeTable where
  kind : Option (TypeId × String)
  accessors : List Accessor
  canFail : List Bool
  hasDefault : Bool
  hasNested : Bool

structure WrongKind where
  record : Record
  kindName : String

def WrongKind.message (w : WrongKind) : String :=
  "record " ++ w.record.render .byId ++ " is not an instance of " ++ w.kindName

structure Unreadable where
  name : String
  kind : String
  cause : QueryError

def Unreadable.message (u : Unreadable) : String :=
  "Could not obtain annotation attribute value for " ++ u.name ++ " declared on " ++ u.kind

def describeAttribute : Option String → Option String → String
  | _, none => "(none)"
  | some kind, some name => "attribute '" ++ name ++ "' in annotation [" ++ kind ++ "]"
  | none, some name => "attribute '" ++ name ++ "'"

namespace Accessor

def ofMember (d : MemberDecl) : Accessor := ⟨d.id, d.name, d.returns, d.default⟩

def insertByName (a : Accessor) : List Accessor → List Accessor
  | [] => [a]
  | b :: rest => if a.name ≤ b.name then a :: b :: rest else b :: insertByName a rest

def sortByName (as : List Accessor) : List Accessor := as.foldr insertByName []

end Accessor

namespace AttributeTable

def ofAccessors (kind : Option (TypeId × String)) (as : List Accessor) : AttributeTable where
  kind := kind
  accessors := as
  canFail := as.map (·.type.isDeferred)
  hasDefault := as.any (·.default.isSome)
  hasNested := as.any (·.type.isNested)

def empty : AttributeTable := ofAccessors none []

def ofKind (kind : TypeId) (name : String) (as : List Accessor) : AttributeTable :=
  if as.isEmpty then empty else ofAccessors (some (kind, name)) (Accessor.sortByName as)

def compute (c : Catalog) (kind : TypeId) (restricted : Bool) :
    Except QueryError AttributeTable := do
  let name ← c.typeName kind
  let members ← c.declaredMembers kind
  let decls ← members.mapM c.memberDecl
  let kept := decls.filter fun d => !restricted || d.isAttribute
  pure (ofKind kind name (kept.map .ofMember))

def kindId (t : AttributeTable) : Option TypeId := t.kind.map (·.1)

def kindName (t : AttributeTable) : Option String := t.kind.map (·.2)

def size (t : AttributeTable) : Nat := t.accessors.length

def isEmpty (t : AttributeTable) : Bool := t.accessors.isEmpty

def get? (t : AttributeTable) (index : Nat) : Option Accessor := t.accessors[index]?

def canFail? (t : AttributeTable) (index : Nat) : Option Bool := t.canFail[index]?

def indexOf (t : AttributeTable) (name : String) : Option Nat :=
  t.accessors.findIdx? (·.name = name)

def indexOfAccessor (t : AttributeTable) (a : Accessor) : Option Nat :=
  t.accessors.findIdx? (·.member = a.member)

def byName (t : AttributeTable) (name : String) : Option Accessor := do
  t.get? (← t.indexOf name)

def isValueOnly (t : AttributeTable) : Bool :=
  match t.accessors with
  | [a] => a.name = "value"
  | _ => false

def hazardous (t : AttributeTable) : List Accessor :=
  ((t.accessors.zip t.canFail).filter fun (_, canFail) => canFail).map fun (a, _) => a

def isReadable (c : Catalog) (r : Record) (a : Accessor) : Bool :=
  match c.readAttribute r a.member with
  | .ok _ => true
  | .error _ => false

def expect (t : AttributeTable) (r : Record) : Except WrongKind Unit :=
  match t.kind with
  | some (kind, name) => if r.kind = kind then .ok () else .error ⟨r, name⟩
  | none => .ok ()

def isValid (t : AttributeTable) (c : Catalog) (r : Record) : Except WrongKind Bool := do
  t.expect r
  pure (t.hazardous.all (isReadable c r))

def firstUnreadable (c : Catalog) (r : Record) : List Accessor → Option Unreadable
  | [] => none
  | a :: rest =>
    match c.readAttribute r a.member with
    | .ok _ => firstUnreadable c r rest
    | .error cause =>
      let kind := match c.type? r.kind with
        | some kind => kind.name
        | none => r.kind.text
      some ⟨a.name, kind, cause⟩

def validate (t : AttributeTable) (c : Catalog) (r : Record) :
    Except WrongKind (Option Unreadable) := do
  t.expect r
  pure (firstUnreadable c r t.hazardous)

def describe? (t : AttributeTable) : Option Nat → Option String
  | none => some (describeAttribute t.kindName none)
  | some index => (t.get? index).map fun a => describeAttribute t.kindName (some a.name)

end AttributeTable

end Lineage
