import Lineage.Catalog.Supertypes

namespace Lineage

/-- What the type parameters of one type stand for, in terms of the type where a search began. -/
abbrev Bindings := List (String × TypeArg)

/-- The parameters of a supertype stand for the arguments given to it; one whose argument is missing
    or an unbound variable stands for nothing. -/
def Bindings.through (b : Bindings) (params : List TypeParam) (args : List TypeArg) : Bindings :=
  (params.zip args).filterMap fun (param, arg) =>
    match arg with
    | .concrete id => some (param.name, .concrete id)
    | .var name => (findNamed name b).map (param.name, ·)

namespace Catalog

def erasure (c : Catalog) (owner : TypeId) (var : String) : TypeId :=
  (do let decl ← c.type? owner
      let (_, param) ← decl.param? var
      param.bound).getD root

def eraseArg (c : Catalog) (owner : TypeId) : TypeArg → TypeId
  | .concrete id => id
  | .var name => c.erasure owner name

def parameterTypes (c : Catalog) (id : MemberId) : Except QueryError (List TypeId) := do
  let decl ← c.loadMember id
  pure (decl.params.map (c.eraseArg decl.declaring))

def boundSupertypes (c : Catalog) (decl : TypeDecl) (b : Bindings) : List (TypeId × Bindings) :=
  decl.supertypes.filterMap fun ref =>
    (c.type? ref.target).map fun above => (ref.target, b.through above.params ref.args)

/-- What a variable of the declaring type stands for on the first path that leads there, depth
    first. A variable that nothing was given for is its erasure. -/
def resolveFrom (c : Catalog) (declaring : TypeId) (var : String) (seen : List TypeId) :
    List (TypeId × Bindings) → Option TypeArg
  | [] => none
  | (id, b) :: todo =>
    if id = declaring then some ((findNamed var b).getD (.concrete (c.erasure declaring var)))
    else if known : id ∈ seen then c.resolveFrom declaring var seen todo
    else
      match found : c.type? id with
      | none => c.resolveFrom declaring var seen todo
      | some decl =>
        have := unseen_cons_lt (index_lt_of_type? found) known
        c.resolveFrom declaring var (id :: seen) (c.boundSupertypes decl b ++ todo)
termination_by todo => (c.unseen seen, todo.length)

section

variable {c : Catalog} {declaring id : TypeId} {var : String} {b : Bindings} {seen : List TypeId}
  {todo : List (TypeId × Bindings)}

theorem resolveFrom_declaring : c.resolveFrom declaring var seen ((declaring, b) :: todo) =
    some ((findNamed var b).getD (.concrete (c.erasure declaring var))) := by
  rw [resolveFrom, if_pos rfl]

theorem resolveFrom_seen (other : id ≠ declaring) (known : id ∈ seen) :
    c.resolveFrom declaring var seen ((id, b) :: todo) = c.resolveFrom declaring var seen todo := by
  rw [resolveFrom, if_neg other, dif_pos known]

theorem resolveFrom_unknown (other : id ≠ declaring) (unknown : c.type? id = none) :
    c.resolveFrom declaring var seen ((id, b) :: todo) = c.resolveFrom declaring var seen todo := by
  rw [resolveFrom, if_neg other]
  split
  · rfl
  · split
    · rfl
    · rename_i decl found
      rw [unknown] at found
      cases found

theorem resolveFrom_new {decl : TypeDecl} (other : id ≠ declaring) (new : id ∉ seen)
    (found : c.type? id = some decl) :
    c.resolveFrom declaring var seen ((id, b) :: todo) =
      c.resolveFrom declaring var (id :: seen) (c.boundSupertypes decl b ++ todo) := by
  rw [resolveFrom, if_neg other, dif_neg new]
  split
  · rename_i unknown
    rw [found] at unknown
    cases unknown
  · rename_i same known
    rw [found] at known
    cases known
    rfl

end

def resolveParameter (c : Catalog) (id : MemberId) (index : Nat) (against : TypeId) :
    Except QueryError (Option TypeId) := do
  let decl ← c.memberDecl id
  match decl.params[index]? with
  | none => pure none
  | some (.concrete type) => pure (some type)
  | some (.var name) =>
    let start ← c.typeDecl against
    let itself : Bindings := start.params.map fun param => (param.name, .var param.name)
    match c.resolveFrom decl.declaring name [] [(against, itself)] with
    | some (.concrete type) => pure (some type)
    | some (.var free) => pure (some (c.erasure against free))
    | none => pure (some (c.erasure decl.declaring name))

end Catalog

end Lineage
