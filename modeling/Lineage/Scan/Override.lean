import Lineage.Catalog.Generics

namespace Lineage.Catalog

def resolvesTo (c : Catalog) (id : MemberId) (against : TypeId) :
    Nat → List TypeId → Except QueryError Bool
  | _, [] => pure true
  | index, type :: rest => do
    let resolved ← c.resolveParameter id index against
    if resolved = some type then c.resolvesTo id against (index + 1) rest else pure false

/-- Whether two members take the same parameters: by erased type, or with the candidate seen from
    the declaring type of the other if that is a subtype. -/
def sameParameters (c : Catalog) (member candidate : MemberDecl) : Except QueryError Bool := do
  if candidate.params.length = member.params.length then
    let types ← c.parameterTypes member.id
    let erased ← c.parameterTypes candidate.id
    if erased = types then pure true
    else
      let below ← c.isAssignable candidate.declaring member.declaring
      if below then c.resolvesTo candidate.id member.declaring 0 types else pure false
  else pure false

def overrides (c : Catalog) (member candidate : MemberId) : Except QueryError Bool := do
  let member ← c.memberDecl member
  let candidate ← c.memberDecl candidate
  if !candidate.isPrivate && candidate.name = member.name then c.sameParameters member candidate
  else pure false

end Lineage.Catalog
