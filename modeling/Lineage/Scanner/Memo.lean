import Lineage.Attributes
import Lineage.Catalog.Supertypes
import Lineage.Scanner.Basic
import Lineage.Trial

namespace Lineage

structure Memo where
  attributes : List (TypeId × AttributeTable)
  declared : List (Element × List Slot)
  members : List (TypeId × List MemberId)

namespace Memo

def empty : Memo := ⟨[], [], []⟩

instance : Inhabited Memo := ⟨empty⟩

def text (m : Memo) : String :=
  "HierarchyScanner \x7b attributes: " ++ m.attributes.length.repr ++
    ", declared: " ++ m.declared.length.repr ++
    ", base_members: " ++ m.members.length.repr ++ ", .. \x7d"

def knowsDeclared (m : Memo) (e : Element) : Bool := (m.declared.lookup e).isSome

end Memo

/-- A computation that may remember what it finds, also when it fails later. -/
abbrev Recall := Trial QueryError Memo

namespace Recall

def ask (answer : Except QueryError α) : Recall α := .ofExcept answer

def remember (find : Memo → Option α) (keep : α → Memo → Memo) (compute : Recall α) :
    Recall α where
  run m :=
    match find m with
    | some a => .ok a m
    | none =>
      match compute.run m with
      | .ok a m => .ok a (keep a m)
      | .error e m => .error e m

def keep (test : α → Recall Bool) : List α → Recall (List α)
  | [] => pure []
  | a :: rest => do
    let passes ← test a
    let others ← keep test rest
    pure (if passes then a :: others else others)

end Recall

namespace Scanner

open Recall

def attributes (s : Scanner) (kind : TypeId) : Recall AttributeTable :=
  remember (·.attributes.lookup kind)
    (fun t m => { m with attributes := (kind, t) :: m.attributes })
    (ask (AttributeTable.compute s.catalog kind true))

def isReadable (s : Scanner) (r : Record) : Recall Bool where
  run m :=
    match (s.attributes r.kind).run m with
    | .ok table m =>
      match table.isValid s.catalog r with
      | .ok valid => .ok valid m
      | .error _ => .ok false m
    | .error _ m => .ok false m

def slot (s : Scanner) (r : Record) : Recall Slot := do
  let ignorable ← ask (s.isIgnorable r.kind)
  if ignorable then pure none
  else
    let readable ← s.isReadable r
    pure (if readable then some r else none)

def declaredSlots (s : Scanner) (e : Element) : Recall (List Slot) := do
  let records ← ask (s.catalog.declaredRecords e)
  let slots ← records.mapM s.slot
  pure (if slots.any Option.isSome then slots else [])

def declared (s : Scanner) (e : Element) : Recall (List Slot) :=
  if e.isStable then
    remember (·.declared.lookup e) (fun slots m => { m with declared := (e, slots) :: m.declared })
      (s.declaredSlots e)
  else s.declaredSlots e

def declaredOfKind (s : Scanner) (e : Element) (kind : TypeId) : Recall (Option Record) := do
  let slots ← s.declared e
  pure ((slots.filterMap id).find? (·.kind = kind))

def qualifies (s : Scanner) (onInterface : Bool) (id : MemberId) : Recall Bool := do
  let decl ← ask (s.catalog.memberDecl id)
  if !onInterface && decl.isPrivate then pure false
  else
    let plain ← ask (s.isPlainType decl.declaring)
    if plain then pure false
    else
      let slots ← s.declared (.member id)
      pure !slots.isEmpty

def qualifiedMembers (s : Scanner) (id : TypeId) : Recall (List MemberId) := do
  let decl ← ask (s.catalog.typeDecl id)
  let members ← ask
    (if decl.isInterface then s.catalog.publicMembers id else s.catalog.declaredMembers id)
  keep (s.qualifies decl.isInterface) members

def baseMembers (s : Scanner) (id : TypeId) : Recall (List MemberId) := do
  if id = Catalog.root then pure []
  else
    let plain ← ask (s.isPlainType id)
    if plain then pure []
    else
      remember (·.members.lookup id) (fun ids m => { m with members := (id, ids) :: m.members })
        (s.qualifiedMembers id)

end Scanner

end Lineage
