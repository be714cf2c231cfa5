import Lineage.Scan.Override
import Lineage.Scan.Types

namespace Lineage.Scan

variable {σ ο : Type}

def withoutShown (shown : List Slot) (slots : List Slot) : List Slot :=
  slots.map fun slot => if shown.contains slot then none else slot

def memberRecords (s : Scan σ ο) (index : Nat) (id : MemberId) : Walk σ ο Unit := do
  let own ← s.declared (.member id)
  s.deliver index (.member id) own
  let target ← Walk.ask (s.scanner.catalog.bridged id)
  unless target = id do
    let others ← s.declared (.member target)
    s.deliver index (.member id) (withoutShown own others)

def candidates (s : Scan σ ο) (id : TypeId) : Walk σ ο (List MemberId) :=
  if s.rejects id then pure [] else Walk.consult (s.scanner.baseMembers id)

def showOverridden (s : Scan σ ο) (member : MemberId) (called : Bool) :
    List MemberId → Walk σ ο Bool
  | [] => pure called
  | candidate :: rest => do
    let overridden ← Walk.ask (s.scanner.catalog.overrides member candidate)
    if overridden then
      s.memberRecords (← Walk.index) candidate
      s.showOverridden member true rest
    else s.showOverridden member called rest

def memberLevel (s : Scan σ ο) (member : MemberId) (declaring id : TypeId) : Walk σ ο Bool := do
  if id = declaring then
    s.memberRecords (← Walk.index) member
    pure true
  else
    let candidates ← s.candidates id
    s.showOverridden member false candidates

/-- Walks from a type up its hierarchy in search of members that a member overrides. Only types that
    have one count as levels. A private member overrides nothing. All failures are reported on the
    scanned member, and each ends the type where it arises. -/
def memberFrom (s : Scan σ ο) (interfaces : Bool) (member : MemberId) :
    Nat → TypeId → Walk σ ο Unit
  | 0, _ => pure ()
  | fuel + 1, id =>
    Walk.contain (.member member) do
      s.enter (← Walk.index)
      let plain ← Walk.ask (s.scanner.isPlainType id)
      unless plain do
        let decl ← Walk.ask (s.scanner.catalog.memberDecl member)
        let called ← s.memberLevel member decl.declaring id
        unless decl.isPrivate do
          if called then Walk.advance
          if interfaces then
            let above ← Walk.ask (s.scanner.catalog.interfaces id)
            above.forM (s.memberFrom interfaces member fuel)
          if let some above ← s.properSuperclass id then s.memberFrom interfaces member fuel above

def memberAlone (s : Scan σ ο) (id : MemberId) : Walk σ ο Unit :=
  Walk.contain (.member id) do
    s.enter 0
    s.memberRecords 0 id

def memberUpward (s : Scan σ ο) (interfaces : Bool) (fuel : Nat) (id : MemberId) :
    Walk σ ο Unit :=
  match s.scanner.catalog.memberDecl id with
  | .ok decl => s.memberFrom interfaces id fuel decl.declaring
  | .error e => Walk.report (.member id) e

def memberWalk (s : Scan σ ο) (fuel : Nat) (id : MemberId) : Strategy → Walk σ ο Unit
  | .direct | .inherited => s.memberAlone id
  | .superclass => s.memberUpward false fuel id
  | .hierarchy | .enclosing => s.memberUpward true fuel id

end Lineage.Scan
