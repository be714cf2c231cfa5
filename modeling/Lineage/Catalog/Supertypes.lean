import Lineage.Catalog.Query

namespace Lineage.Catalog

def unseen (c : Catalog) (seen : List TypeId) : Nat :=
  ((List.range c.types.length).filter fun i => TypeId.mk i ∉ seen).length

theorem unseen_cons_lt {c : Catalog} {seen : List TypeId} {id : TypeId}
    (issued : id.index < c.types.length) (new : id ∉ seen) :
    c.unseen (id :: seen) < c.unseen seen := by
  have split : (List.range c.types.length).filter (fun i => TypeId.mk i ∉ id :: seen) =
      ((List.range c.types.length).filter fun i => TypeId.mk i ∉ seen).filter
        fun i => TypeId.mk i ≠ id := by
    rw [List.filter_filter]
    apply List.filter_congr
    intro i _
    simp [not_or]
  unfold unseen
  rw [split, List.length_filter_lt_length_iff_exists]
  refine ⟨id.index, ?_, by simp⟩
  simp [issued, new]

theorem index_lt_of_type? {c : Catalog} {id : TypeId} {decl : TypeDecl}
    (h : c.type? id = some decl) : id.index < c.types.length :=
  (List.getElem?_eq_some_iff.mp h).1

theorem type?_of_typeDecl {c : Catalog} {id : TypeId} {decl : TypeDecl}
    (h : c.typeDecl id = .ok decl) : c.type? id = some decl := by
  unfold typeDecl at h
  split at h
  · rename_i found
    cases h
    exact found
  · cases h

theorem typeDecl_of_load {c : Catalog} {id : TypeId} {decl : TypeDecl}
    (h : c.load id = .ok decl) : c.typeDecl id = .ok decl := by
  unfold load at h
  cases found : c.typeDecl id with
  | error _ => simp only [found, Bind.bind, Except.bind] at h; cases h
  | ok stored =>
    simp only [found, Bind.bind, Except.bind] at h
    split at h
    · cases h; rfl
    · cases h

def reachFrom (c : Catalog) (seen : List TypeId) :
    List TypeId → Except QueryError (List TypeId)
  | [] => .ok []
  | id :: todo =>
    if known : id ∈ seen then c.reachFrom seen todo
    else
      match loaded : c.load id with
      | .error e => .error e
      | .ok decl =>
        have := unseen_cons_lt
          (index_lt_of_type? (type?_of_typeDecl (typeDecl_of_load loaded))) known
        (id :: ·) <$> c.reachFrom (id :: seen)
          (decl.interfaces.map (·.target) ++ decl.superclass.toList.map (·.target) ++ todo)
termination_by todo => (c.unseen seen, todo.length)

theorem reachFrom_seen {c : Catalog} {seen todo : List TypeId} {id : TypeId} (known : id ∈ seen) :
    c.reachFrom seen (id :: todo) = c.reachFrom seen todo := by
  rw [reachFrom, dif_pos known]

theorem reachFrom_new {c : Catalog} {seen todo : List TypeId} {id : TypeId} (new : id ∉ seen) :
    c.reachFrom seen (id :: todo) = (do
      let decl ← c.load id
      (id :: ·) <$> c.reachFrom (id :: seen)
        (decl.interfaces.map (·.target) ++ decl.superclass.toList.map (·.target) ++ todo)) := by
  rw [reachFrom, dif_neg new]
  split
  · rename_i e failed
    rw [failed]
    rfl
  · rename_i decl loaded
    simp only [loaded, Bind.bind, Except.bind]

def publicMembers (c : Catalog) (id : TypeId) : Except QueryError (List MemberId) := do
  let types ← c.reachFrom [] [id]
  pure (types.flatMap fun t => c.membersWhere t (·.visibility = .everyone))

def climbsTo (c : Catalog) (target : TypeId) (seen : List TypeId) :
    List TypeId → Except QueryError Bool
  | [] => .ok false
  | id :: todo =>
    if known : id ∈ seen then c.climbsTo target seen todo
    else
      match found : c.typeDecl id with
      | .error e => .error e
      | .ok decl =>
        have := unseen_cons_lt (index_lt_of_type? (type?_of_typeDecl found)) known
        let above := decl.supertypes.map (·.target)
        if target ∈ above then .ok true
        else c.climbsTo target (id :: seen) (above.reverse ++ todo)
termination_by todo => (c.unseen seen, todo.length)

theorem climbsTo_seen {c : Catalog} {target id : TypeId} {seen todo : List TypeId}
    (known : id ∈ seen) : c.climbsTo target seen (id :: todo) = c.climbsTo target seen todo := by
  rw [climbsTo, dif_pos known]

theorem climbsTo_new {c : Catalog} {target id : TypeId} {seen todo : List TypeId}
    (new : id ∉ seen) :
    c.climbsTo target seen (id :: todo) = (do
      let decl ← c.typeDecl id
      if target ∈ decl.supertypes.map (·.target) then pure true
      else c.climbsTo target (id :: seen) ((decl.supertypes.map (·.target)).reverse ++ todo)) := by
  rw [climbsTo, dif_neg new]
  split
  · rename_i e failed
    rw [failed]
    rfl
  · rename_i decl found
    simp only [found, Bind.bind, Except.bind]
    rfl

def isAssignable (c : Catalog) (target source : TypeId) : Except QueryError Bool :=
  if target = source ∨ target = root then .ok true else c.climbsTo target [] [source]

end Lineage.Catalog
