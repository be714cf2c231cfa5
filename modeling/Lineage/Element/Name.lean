import Lineage.Catalog.Generics

namespace Lineage.Catalog

def nameOf (c : Catalog) (id : TypeId) : String :=
  match c.type? id with
  | some decl => decl.name
  | none => id.text

def naming (c : Catalog) : Rendering := ⟨c.nameOf, ""⟩

def signature (c : Catalog) (id : MemberId) : List String :=
  match c.parameterTypes id with
  | .ok types => types.map c.nameOf
  | .error _ => []

def memberName (c : Catalog) (id : MemberId) : String :=
  match c.member? id with
  | some decl =>
    c.nameOf decl.declaring ++ "#" ++ decl.name ++
      "(" ++ ", ".intercalate (c.signature id) ++ ")"
  | none => id.text

def elementName (c : Catalog) : Element → String
  | .type id => c.nameOf id
  | .member id => c.memberName id
  | .parameter owner index => c.memberName owner ++ " param " ++ index.repr

end Lineage.Catalog
