namespace Lineage

structure TypeId where
  index : Nat
deriving DecidableEq, Repr, Inhabited

structure MemberId where
  index : Nat
deriving DecidableEq, Repr, Inhabited

inductive Element where
  | type (id : TypeId)
  | member (id : MemberId)
  | parameter (owner : MemberId) (index : Nat)
deriving DecidableEq, Repr, Inhabited

def TypeId.text (id : TypeId) : String := "TypeId(" ++ id.index.repr ++ ")"

def MemberId.text (id : MemberId) : String := "MemberId(" ++ id.index.repr ++ ")"

namespace Element

def isStable : Element → Bool
  | .type _ | .member _ => true
  | .parameter _ _ => false

def text : Element → String
  | .type id => id.text
  | .member id => id.text
  | .parameter owner index => owner.text ++ "#param" ++ index.repr

end Element

end Lineage
