import Lineage.Value
import Lineage.ValueType

namespace Lineage

inductive Flavor where
  | classType
  | interface
  /-- A kind of records. -/
  | recordKind
  | enumeration
deriving DecidableEq, Repr, Inhabited

inductive Visibility where
  | everyone
  | subtypes
  | package
  | owner
deriving DecidableEq, Repr, Inhabited

structure TypeParam where
  name : String
  bound : Option TypeId
deriving DecidableEq, Repr

inductive TypeArg where
  | concrete (id : TypeId)
  | var (name : String)
deriving DecidableEq, Repr

structure SuperRef where
  target : TypeId
  args : List TypeArg
deriving DecidableEq, Repr

/-- What a catalog knows of a type. A type that is not present is known by name and cannot be
    loaded. -/
structure TypeDecl where
  id : TypeId
  name : String
  flavor : Flavor
  params : List TypeParam
  superclass : Option SuperRef
  interfaces : List SuperRef
  enclosing : Option TypeId
  /-- Records of this kind are visible on subclasses. -/
  inherited : Bool
  present : Bool
deriving DecidableEq, Repr

namespace TypeDecl

def isInterface (d : TypeDecl) : Bool := d.flavor = .interface

def isRecordKind (d : TypeDecl) : Bool := d.flavor = .recordKind

def param? (d : TypeDecl) (name : String) : Option (Nat × TypeParam) := do
  let position ← d.params.findIdx? (·.name = name)
  let found ← d.params[position]?
  pure (position, found)

def supertypes (d : TypeDecl) : List SuperRef := d.superclass.toList ++ d.interfaces

end TypeDecl

structure MemberDecl where
  id : MemberId
  name : String
  declaring : TypeId
  visibility : Visibility
  params : List TypeArg
  returns : ValueType
  default : Option Value
  /-- The member that this generated one stands for. -/
  bridgeOf : Option MemberId

namespace MemberDecl

def isPrivate (d : MemberDecl) : Bool := d.visibility = .owner

def isBridge (d : MemberDecl) : Bool := d.bridgeOf.isSome

def isAttribute (d : MemberDecl) : Bool := d.params.isEmpty && d.returns != .void

end MemberDecl

structure TypeDef where
  name : String
  flavor : Flavor
  params : List TypeParam := []
  superclass : Option SuperRef := none
  interfaces : List SuperRef := []
  enclosing : Option TypeId := none
  inherited : Bool := false
  records : List Record := []

structure MemberDef where
  name : String
  visibility : Visibility := .everyone
  params : List TypeArg := []
  returns : ValueType := .void
  default : Option Value := none
  bridgeOf : Option MemberId := none
  records : List Record := []
  paramRecords : List (Nat × Record) := []

namespace Catalog

def rootName : String := "lang.Object"

def root : TypeId := ⟨0⟩

def rootDecl : TypeDecl := ⟨root, rootName, .classType, [], none, [], none, false, true⟩

def superclassFor (d : TypeDef) : Option SuperRef :=
  match d.flavor with
  | .classType | .enumeration => some (d.superclass.getD ⟨root, []⟩)
  | .interface | .recordKind => none

end Catalog

def TypeDef.declared (d : TypeDef) (id : TypeId) : TypeDecl :=
  ⟨id, d.name, d.flavor, d.params, Catalog.superclassFor d, d.interfaces, d.enclosing, d.inherited,
    true⟩

def TypeDecl.reserved (id : TypeId) (name : String) : TypeDecl :=
  ⟨id, name, .classType, [], none, [], none, false, false⟩

def MemberDef.declared (d : MemberDef) (id : MemberId) (on : TypeId) : MemberDecl :=
  ⟨id, d.name, on, d.visibility, d.params, d.returns, d.default, d.bridgeOf⟩

def MemberDef.attachments (d : MemberDef) (id : MemberId) : List (Element × Record) :=
  d.records.map (.member id, ·) ++ d.paramRecords.map fun (index, r) => (.parameter id index, r)

/-- The tables of types and of members by id, for each type the ids of its members, the ids of the
    types by name, and the records attached to elements in the order they were added. -/
structure Catalog where
  types : List TypeDecl
  members : List MemberDecl
  typeMembers : List (List MemberId)
  byName : List (String × TypeId)
  records : List (Element × Record)

namespace Catalog

def empty : Catalog := ⟨[], [], [], [], []⟩

def typeCount (c : Catalog) : Nat := c.types.length

def type? (c : Catalog) (id : TypeId) : Option TypeDecl := c.types[id.index]?

def member? (c : Catalog) (id : MemberId) : Option MemberDecl := c.members[id.index]?

def lookup (c : Catalog) (name : String) : Option TypeId := c.byName.lookup name

def memberIds (c : Catalog) (id : TypeId) : List MemberId := c.typeMembers[id.index]?.getD []

def membersWhere (c : Catalog) (id : TypeId) (p : MemberDecl → Bool) : List MemberId :=
  (c.memberIds id).filter fun member => (c.member? member).any p

def membersNamed (c : Catalog) (id : TypeId) (name : String) : List MemberId :=
  c.membersWhere id (·.name = name)

def findMember (c : Catalog) (id : TypeId) (name : String) : Option MemberId :=
  (c.membersNamed id name).head?

def insert (c : Catalog) (decl : TypeDecl) : TypeId × Catalog :=
  match c.lookup decl.name with
  | some id => (id, { c with types := c.types.set id.index { decl with id } })
  | none =>
    let id : TypeId := ⟨c.types.length⟩
    (id, { c with
      types := c.types ++ [{ decl with id }]
      typeMembers := c.typeMembers ++ [[]]
      byName := c.byName ++ [(decl.name, id)] })

def initial : Catalog := (empty.insert rootDecl).2

instance : Inhabited Catalog := ⟨initial⟩

def attachAll (c : Catalog) (rs : List (Element × Record)) : Catalog :=
  { c with records := c.records ++ rs }

def attach (c : Catalog) (e : Element) (r : Record) : Catalog := c.attachAll [(e, r)]

def define (c : Catalog) (d : TypeDef) : TypeId × Catalog :=
  let (id, c) := c.insert (d.declared root)
  (id, c.attachAll (d.records.map (.type id, ·)))

def declareAbsent (c : Catalog) (name : String) : TypeId × Catalog :=
  match c.lookup name with
  | some id => (id, { c with types := c.types.modify id.index ({ · with present := false }) })
  | none => c.insert (.reserved root name)

def withMember (c : Catalog) (on : TypeId) (d : MemberDef) : Catalog :=
  let id : MemberId := ⟨c.members.length⟩
  { c with
    members := c.members ++ [d.declared id on]
    typeMembers := c.typeMembers.modify on.index (· ++ [id])
    records := c.records ++ d.attachments id }

def addMember (c : Catalog) (on : TypeId) (d : MemberDef) : Option (MemberId × Catalog) :=
  if on.index < c.typeMembers.length then some (⟨c.members.length⟩, c.withMember on d) else none

end Catalog

end Lineage
