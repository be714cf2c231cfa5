import Lineage.Proofs.Model.Filling

namespace Lineage.Catalog

/-- How a catalog may go on without touching what it has: by types of new names, by members of types
    that are not its own and by records on elements that are not its own. -/
inductive Grows (c : Catalog) : Catalog → Prop
  | same : Grows c c
  | define {d : Catalog} (x : TypeDef) : Grows c d → c.lookup x.name = none →
    Grows c (d.define x).2
  | declareAbsent {d : Catalog} (name : String) : Grows c d → c.lookup name = none →
    Grows c (d.declareAbsent name).2
  | addMember {d after : Catalog} {id : MemberId} (on : TypeId) (x : MemberDef) : Grows c d →
    ¬c.Issued (.type on) → d.addMember on x = some (id, after) → Grows c after
  | attach {d : Catalog} (e : Element) (r : Record) : Grows c d → ¬c.Issued e → Grows c (d.attach e r)

/-- One catalog begins another: all that is asked of the types, members, names and elements of the
    first is found in the second as it was. -/
structure Begins (c d : Catalog) : Prop where
  typeCount : c.typeCount ≤ d.typeCount
  memberCount : c.members.length ≤ d.members.length
  type : ∀ id, c.Issued (.type id) → d.type? id = c.type? id
  member : ∀ id, c.Issued (.member id) → d.member? id = c.member? id
  memberIds : ∀ id, c.Issued (.type id) → d.memberIds id = c.memberIds id
  attached : ∀ e, c.Issued e → d.attached e = c.attached e
  new : ∀ name id, c.lookup name = none → d.lookup name = some id → ¬c.Issued (.type id)

namespace Begins

variable {c d : Catalog}

theorem refl (c : Catalog) : c.Begins c where
  typeCount := Nat.le_refl _
  memberCount := Nat.le_refl _
  type _ _ := rfl
  member _ _ := rfl
  memberIds _ _ := rfl
  attached _ _ := rfl
  new name id new known := by
    rw [new] at known
    cases known

variable (begins : c.Begins d)
include begins

/-- A new name can be stored for a type of its own only. -/
theorem beyond_of_stored {later : Catalog} {name : String} {id : TypeId} (new : c.lookup name = none)
    (stored : d.Stored name id later) : ¬c.Issued (.type id) := by
  cases stored with
  | known change known => exact begins.new name id new known
  | new decl unknown last => exact last ▸ Nat.not_lt.mpr begins.typeCount

theorem stored {later : Catalog} {name : String} {id : TypeId} (new : c.lookup name = none)
    (stored : d.Stored name id later) : c.Begins later where
  typeCount := Nat.le_trans begins.typeCount stored.length_types_le
  memberCount := stored.members ▸ begins.memberCount
  type other issued := by
    have beyond := begins.beyond_of_stored new stored
    rw [← begins.type other issued]
    cases stored with
    | known change known =>
      apply List.getElem?_modify_ne
      exact fun same => beyond (TypeId.eq_of_index same ▸ issued)
    | new decl unknown last =>
      exact List.getElem?_append_left (Nat.lt_of_lt_of_le issued begins.typeCount)
  member other issued := by
    rw [← begins.member other issued, member?, stored.members]
    rfl
  memberIds other issued := by
    rw [← begins.memberIds other issued]
    cases stored with
    | known change known => rfl
    | new decl unknown last =>
      show (d.typeMembers ++ [[]])[other.index]?.getD [] = d.typeMembers[other.index]?.getD []
      grind
  attached e issued := by
    rw [← begins.attached e issued, Catalog.attached, stored.records]
    rfl
  new other found unknown known := by
    have beyond := begins.beyond_of_stored new stored
    cases stored with
    | known change _ => exact begins.new other found unknown known
    | new decl _ last =>
      have known : (d.byName ++ [(name, id)]).lookup other = some found := known
      rw [List.lookup_append, Option.or_eq_some_iff] at known
      obtain known | ⟨_, here⟩ := known
      · exact begins.new other found unknown known
      · rw [List.lookup_cons] at here
        split at here
        · cases here
          exact beyond
        · cases here

theorem attachAll {rs : List (Element × Record)} (elsewhere : ∀ entry ∈ rs, ¬c.Issued entry.1) :
    c.Begins (d.attachAll rs) where
  typeCount := begins.typeCount
  memberCount := begins.memberCount
  type := begins.type
  member := begins.member
  memberIds := begins.memberIds
  attached e issued := by
    have none : e.among rs = [] :=
      Element.among_eq_nil fun entry there same => elsewhere entry there (same ▸ issued)
    rw [attached_attachAll, none, List.append_nil, begins.attached e issued]
  new := begins.new

theorem define {x : TypeDef} (new : c.lookup x.name = none) : c.Begins (d.define x).2 := by
  have stored := insert_stored (c := d) (x.declared root)
  apply (begins.stored new stored).attachAll
  intro entry there
  obtain ⟨r, _, rfl⟩ := List.mem_map.mp there
  exact begins.beyond_of_stored new stored

theorem withMember {on : TypeId} (x : MemberDef) (other : ¬c.Issued (.type on)) :
    c.Begins (d.withMember on x) where
  typeCount := begins.typeCount
  memberCount := Nat.le_trans begins.memberCount (List.length_append ▸ Nat.le_add_right _ _)
  type := begins.type
  member id issued := by
    rw [← begins.member id issued]
    exact List.getElem?_append_left (Nat.lt_of_lt_of_le issued begins.memberCount)
  memberIds id issued := by
    have different : on.index ≠ id.index := fun same => other (TypeId.eq_of_index same ▸ issued)
    rw [← begins.memberIds id issued]
    exact congrArg (Option.getD · []) (List.getElem?_modify_ne _ d.typeMembers different)
  attached e issued := by
    have none : e.among (x.attachments ⟨d.members.length⟩) = [] := by
      refine Element.among_eq_nil fun entry there same => ?_
      subst same
      rcases List.mem_append.mp there with there | there
      · obtain ⟨r, _, rfl⟩ := List.mem_map.mp there
        exact Nat.not_lt.mpr begins.memberCount issued
      · obtain ⟨⟨index, r⟩, _, rfl⟩ := List.mem_map.mp there
        exact Nat.not_lt.mpr begins.memberCount issued
    rw [attached_withMember, none, List.append_nil, begins.attached e issued]
  new := begins.new

end Begins

theorem Grows.begins {c d : Catalog} (grows : c.Grows d) : c.Begins d := by
  induction grows with
  | same => exact .refl c
  | define x _ new ih => exact ih.define new
  | declareAbsent name _ new ih => exact ih.stored new (declareAbsent_stored name)
  | addMember on x _ other added ih =>
    obtain ⟨_, _, rfl⟩ := addMember_cases added
    exact ih.withMember x other
  | attach e r _ other ih => exact ih.attachAll (List.forall_mem_singleton.mpr other)

end Lineage.Catalog
