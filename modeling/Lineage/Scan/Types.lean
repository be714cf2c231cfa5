import Lineage.Scan.Strategy
import Lineage.Scan.Walk

namespace Lineage.Scan

variable {σ ο : Type}

/-- The records visible on the scanned type that no level has shown yet, and how many these are. -/
structure Claims where
  slots : List Slot
  remaining : Nat

namespace Claims

def ofRecords (visible : List Record) : Claims := ⟨visible.map some, visible.length⟩

def takeFirst (kind : TypeId) : List Slot → Option (List Slot)
  | [] => none
  | none :: rest => (takeFirst kind rest).map (none :: ·)
  | some r :: rest =>
    if r.kind = kind then some (none :: rest) else (takeFirst kind rest).map (some r :: ·)

def claim (c : Claims) : Slot → Slot × Claims
  | none => (none, c)
  | some r =>
    match takeFirst r.kind c.slots with
    | some slots => (some r, ⟨slots, c.remaining - 1⟩)
    | none => (none, c)

def claimAll (c : Claims) : List Slot → List Slot × Claims
  | [] => ([], c)
  | slot :: rest =>
    let (slot, c) := c.claim slot
    let (rest, c) := c.claimAll rest
    (slot :: rest, c)

end Claims

def claimsFor (s : Scan σ ο) (source : TypeId) (declared : List Slot) :
    Option Claims → Walk σ ο (Option Claims)
  | some claims => pure (some claims)
  | none =>
    if declared.isEmpty then pure none
    else do
      let visible ← Walk.ask (s.scanner.catalog.visibleRecords source)
      pure (some (.ofRecords visible))

/-- Shows what is still claimed of a type's records, and tells what is claimed after it. A rejected
    type shows nothing and uses up no claim. -/
def inheritedLevel (s : Scan σ ο) (source id : TypeId) (index : Nat) (claims : Option Claims) :
    Walk σ ο (Option Claims) := do
  if s.rejects id then pure claims
  else
    let declared ← Walk.consult (s.scanner.declared (.type id))
    match ← s.claimsFor source declared claims with
    | some claims =>
      let (shown, claims) := claims.claimAll declared
      s.deliver index (.type id) shown
      pure (some claims)
    | none =>
      s.deliver index (.type id) declared
      pure none

def properSuperclass (s : Scan σ ο) (id : TypeId) : Walk σ ο (Option TypeId) := do
  let above ← Walk.ask (s.scanner.catalog.superclass id)
  pure (above.filter (· != Catalog.root))

def inheritedFrom (s : Scan σ ο) (source : TypeId) :
    Nat → TypeId → Nat → Option Claims → Walk σ ο Unit
  | 0, _, _, _ => pure ()
  | fuel + 1, id, index, claims =>
    Walk.contain (.type id) do
      unless id = Catalog.root || claims.any (·.remaining = 0) do
        let plain ← Walk.ask (s.scanner.isPlainType id)
        unless plain do
          s.enter index
          let claims ← s.inheritedLevel source id index claims
          match ← Walk.ask (s.scanner.catalog.superclass id) with
          | some above => s.inheritedFrom source fuel above (index + 1) claims
          | none => pure ()

def inheritedType (s : Scan σ ο) (fuel : Nat) (source : TypeId) : Walk σ ο Unit :=
  Walk.contain (.type source) do
    let alone ← Walk.ask (s.scanner.catalog.isWithoutHierarchy .inherited (.type source))
    if alone then s.element (.type source) else s.inheritedFrom source fuel source 0 none

structure Reach where
  interfaces : Bool
  enclosing : Bool

/-- Walks a type, then its interfaces, its superclass and the type around it, as far as the walk
    reaches. Every type visited is a level of its own. A failure ends the type where it arises, but
    one about the type around it is only reported. -/
def typeFrom (s : Scan σ ο) (reach : Reach) : Nat → TypeId → Walk σ ο Unit
  | 0, _ => pure ()
  | fuel + 1, id =>
    Walk.contain (.type id) do
      s.enter (← Walk.index)
      let plain ← Walk.ask (s.scanner.isPlainType id)
      unless plain do
        let slots ← s.declared (.type id)
        s.deliver (← Walk.index) (.type id) slots
        Walk.advance
        if reach.interfaces then
          let interfaces ← Walk.ask (s.scanner.catalog.interfaces id)
          interfaces.forM (s.typeFrom reach fuel)
        if let some above ← s.properSuperclass id then s.typeFrom reach fuel above
        if reach.enclosing then
          match s.scanner.catalog.enclosing id with
          | .ok (some outer) => s.typeFrom reach fuel outer
          | .ok none => pure ()
          | .error e => Walk.report (.type id) e

def typeWalk (s : Scan σ ο) (fuel : Nat) (id : TypeId) : Strategy → Walk σ ο Unit
  | .direct => s.element (.type id)
  | .inherited => s.inheritedType fuel id
  | .superclass => s.typeFrom ⟨false, false⟩ fuel id
  | .hierarchy => s.typeFrom ⟨true, false⟩ fuel id
  | .enclosing => s.typeFrom ⟨true, true⟩ fuel id

end Lineage.Scan
