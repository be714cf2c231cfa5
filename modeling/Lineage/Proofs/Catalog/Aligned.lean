import Lineage.Proofs.Catalog.Built

namespace Lineage.Catalog

variable {c d : Catalog} {id on : TypeId} {name : String}

def names (c : Catalog) : List String := c.types.map (·.name)

/-- Ids are positions, every member is on a type that there is, and the ids by name and by declaring
    type are those of the types and the members. -/
structure Aligned (c : Catalog) : Prop where
  typeNumbered : ∀ id decl, c.type? id = some decl → decl.id = id
  numbered : c.Numbered
  housed : ∀ member ∈ c.members, member.declaring.index < c.types.length
  byName : c.byName = c.names.mapIdx fun i name => (name, ⟨i⟩)
  typeMembers : c.typeMembers =
    (List.range c.types.length).map fun i => (c.membersOf ⟨i⟩).map (·.id)

theorem length_names (c : Catalog) : c.names.length = c.types.length := List.length_map _

theorem type?_of_name (there : c.names[id.index]? = some name) :
    ∃ decl, c.type? id = some decl ∧ decl.name = name := by
  unfold names at there
  rw [List.getElem?_map] at there
  exact Option.map_eq_some_iff.mp there

theorem name_of_found {decl : TypeDecl} (found : c.type? id = some decl) :
    c.names[id.index]? = some decl.name := by
  unfold names
  rw [List.getElem?_map]
  exact congrArg (Option.map _) found

theorem lookup_mapIdx (names : List String) (name : String) (id : Nat → TypeId) :
    (names.mapIdx fun i name => (name, id i)).lookup name =
      (names.findIdx? (· = name)).map id := by
  induction names generalizing id with
  | nil => rfl
  | cons first rest ih =>
    rw [List.mapIdx_cons, List.lookup_cons, List.findIdx?_cons, ih fun i => id (i + 1)]
    by_cases here : first = name
    · simp only [here, BEq.rfl, decide_true, ↓reduceIte, Option.map_some]
    · simp only [here, decide_false, Bool.false_eq_true, ↓reduceIte, Option.map_map,
        beq_eq_false_iff_ne.mpr (Ne.symm here)]
      rfl

theorem lookup_congr (same : c.byName = d.byName) : c.lookup = d.lookup := by
  funext name
  rw [lookup, lookup, same]

namespace Aligned

variable (aligned : c.Aligned)
include aligned

theorem lookup_eq_findIdx? (name : String) :
    c.lookup name = (c.names.findIdx? (· = name)).map TypeId.mk := by
  rw [lookup, aligned.byName, lookup_mapIdx]

theorem lookup_congr (alignedToo : d.Aligned) (same : c.names = d.names) : c.lookup = d.lookup := by
  funext name
  rw [aligned.lookup_eq_findIdx?, alignedToo.lookup_eq_findIdx?, same]

theorem lookup_eq_none_iff : c.lookup name = none ↔ name ∉ c.names := by
  rw [aligned.lookup_eq_findIdx?, Option.map_eq_none_iff, List.findIdx?_eq_none_iff]
  simp only [decide_eq_false_iff_not]
  exact ⟨fun none known => none name known rfl, fun new x known same => new (same ▸ known)⟩

theorem lookup_sound (found : c.lookup name = some id) : c.names[id.index]? = some name := by
  rw [aligned.lookup_eq_findIdx?, Option.map_eq_some_iff] at found
  obtain ⟨i, found, rfl⟩ := found
  obtain ⟨bound, same, _⟩ := List.findIdx?_eq_some_iff_getElem.mp found
  rw [List.getElem?_eq_getElem bound, of_decide_eq_true same]

theorem issued_of_lookup (found : c.lookup name = some id) : id.index < c.types.length := by
  rw [← length_names]
  exact (List.getElem?_eq_some_iff.mp (aligned.lookup_sound found)).1

theorem lookup_eq_some_iff (distinct : c.names.Nodup) :
    c.lookup name = some id ↔ c.names[id.index]? = some name := by
  constructor
  · exact aligned.lookup_sound
  · intro there
    obtain ⟨bound, same⟩ := List.getElem?_eq_some_iff.mp there
    rcases h : c.lookup name with _ | other
    · have new := aligned.lookup_eq_none_iff.mp h
      exact absurd (same ▸ List.getElem_mem bound) new
    · obtain ⟨boundToo, sameToo⟩ := List.getElem?_eq_some_iff.mp (aligned.lookup_sound h)
      have position := distinct.getElem_inj_iff.mp (sameToo.trans same.symm)
      rw [TypeId.eq_of_index position]

theorem length_typeMembers : c.typeMembers.length = c.types.length := by
  rw [aligned.typeMembers, List.length_map, List.length_range]

theorem typeMembers_of_issued (issued : id.index < c.types.length) :
    c.typeMembers[id.index]? = some ((c.membersOf id).map (·.id)) := by
  rw [aligned.typeMembers, List.getElem?_map, List.getElem?_range issued]
  rfl

theorem membersOf_beyond (beyond : c.types.length ≤ id.index) : c.membersOf id = [] := by
  refine List.filter_eq_nil_iff.mpr fun member there on => ?_
  have issued := aligned.housed member there
  rw [of_decide_eq_true on] at issued
  omega

theorem memberIds (id : TypeId) : c.memberIds id = (c.membersOf id).map (·.id) := by
  unfold Catalog.memberIds
  rcases Nat.lt_or_ge id.index c.types.length with issued | beyond
  · rw [aligned.typeMembers_of_issued issued]
    rfl
  · rw [List.getElem?_eq_none (aligned.length_typeMembers ▸ beyond), aligned.membersOf_beyond beyond]
    rfl

theorem membersWhere (id : TypeId) (p : MemberDecl → Bool) :
    c.membersWhere id p = ((c.membersOf id).filter p).map (·.id) := by
  unfold Catalog.membersWhere
  rw [aligned.memberIds, List.filter_map]
  congr 1
  apply List.filter_congr
  intro decl listed
  rw [Function.comp_apply, aligned.numbered.member? listed, Option.any_some]

theorem addMember_issued (d : MemberDef) (issued : on.index < c.types.length) :
    c.addMember on d = some (⟨c.members.length⟩, c.withMember on d) :=
  addMember_of_listed d (aligned.length_typeMembers ▸ issued)

end Aligned

/-- How a type is stored under a name: in the place of the one of that name, if there is one, with the
    name and the id of that one; else after the others, with an empty list of members. -/
inductive Stored (c : Catalog) (name : String) (id : TypeId) : Catalog → Prop
  | known (change : TypeDecl → TypeDecl) : c.lookup name = some id →
    (∀ old, old.name = name → old.id = id → (change old).name = name ∧ (change old).id = id) →
    Stored c name id { c with types := c.types.modify id.index change }
  | new (decl : TypeDecl) : c.lookup name = none → id = ⟨c.types.length⟩ → decl.name = name →
    decl.id = id →
    Stored c name id { c with
      types := c.types ++ [decl]
      typeMembers := c.typeMembers ++ [[]]
      byName := c.byName ++ [(name, id)] }

theorem insert_stored (decl : TypeDecl) : c.Stored decl.name (c.insert decl).1 (c.insert decl).2 := by
  unfold insert
  split
  · rename_i id known
    simp only [List.set_eq_modify]
    exact .known _ known fun _ _ _ => ⟨rfl, rfl⟩
  · rename_i unknown
    exact .new _ unknown rfl rfl rfl

theorem declareAbsent_stored (name : String) :
    c.Stored name (c.declareAbsent name).1 (c.declareAbsent name).2 := by
  unfold declareAbsent
  split
  · rename_i id known
    exact .known _ known fun _ named numbered => ⟨named, numbered⟩
  · exact insert_stored (.reserved root name)

namespace Stored

variable (stored : c.Stored name id d)
include stored

theorem members : d.members = c.members := by
  cases stored <;> rfl

theorem records : d.records = c.records := by
  cases stored <;> rfl

theorem length_types_le : c.types.length ≤ d.types.length := by
  cases stored with
  | known => exact Nat.le_of_eq (List.length_modify ..).symm
  | new => exact List.length_append ▸ Nat.le_add_right _ _

theorem names (aligned : c.Aligned) :
    d.names = if (c.lookup name).isSome then c.names else c.names ++ [name] := by
  cases stored with
  | known change known keeps =>
    obtain ⟨old, found, named⟩ := type?_of_name (aligned.lookup_sound known)
    rw [if_pos (known ▸ rfl)]
    apply List.ext_getElem?
    intro i
    simp only [Catalog.names, List.getElem?_map, List.getElem?_modify]
    by_cases here : id.index = i
    · subst here
      have found : c.types[id.index]? = some old := found
      simp only [found, ↓reduceIte, Option.map_eq_map, Option.map_some,
        (keeps old named (aligned.typeNumbered id old found)).1, named]
    · simp only [here, ↓reduceIte, id_map']
  | new decl unknown last named =>
    rw [if_neg (by rw [unknown]; nofun), ← named]
    exact List.map_append

theorem typeNumbered (aligned : c.Aligned) :
    ∀ other decl, d.type? other = some decl → decl.id = other := by
  intro other decl found
  cases stored with
  | known change known keeps =>
    obtain ⟨old, there, named⟩ := type?_of_name (aligned.lookup_sound known)
    have found : (c.types.modify id.index change)[other.index]? = some decl := found
    rw [List.getElem?_modify, Option.map_eq_map, Option.map_eq_some_iff] at found
    obtain ⟨before, stood, rfl⟩ := found
    by_cases here : id.index = other.index
    · obtain rfl := TypeId.eq_of_index here
      obtain rfl := Option.some.inj (there.symm.trans stood)
      rw [if_pos rfl]
      exact (keeps old named (aligned.typeNumbered id old there)).2
    · rw [if_neg here]
      exact aligned.typeNumbered other before stood
  | new added unknown last named numbered =>
    have found : (c.types ++ [added])[other.index]? = some decl := found
    rcases Nat.lt_or_ge other.index c.types.length with before | beyond
    · rw [List.getElem?_append_left before] at found
      exact aligned.typeNumbered other decl found
    · rw [List.getElem?_append_right beyond, List.getElem?_singleton] at found
      split at found
      · rename_i here
        have position : other.index = c.types.length := by omega
        cases found
        rw [numbered, last]
        exact TypeId.eq_of_index position.symm
      · cases found

theorem aligned (aligned : c.Aligned) : d.Aligned where
  typeNumbered := stored.typeNumbered aligned
  numbered := by
    unfold Numbered member?
    rw [stored.members]
    exact aligned.numbered
  housed member there := by
    rw [stored.members] at there
    exact Nat.lt_of_lt_of_le (aligned.housed member there) stored.length_types_le
  byName := by
    rw [stored.names aligned]
    cases stored with
    | known change known =>
      rw [if_pos (known ▸ rfl)]
      exact aligned.byName
    | new decl unknown last =>
      rw [if_neg (by rw [unknown]; nofun), List.mapIdx_concat, length_names, ← last, ← aligned.byName]
  typeMembers := by
    cases stored with
    | known change =>
      show c.typeMembers = (List.range (c.types.modify id.index change).length).map _
      rw [List.length_modify]
      exact aligned.typeMembers
    | new decl unknown last =>
      have none : c.membersOf ⟨c.types.length⟩ = [] := aligned.membersOf_beyond (Nat.le_refl _)
      show c.typeMembers ++ [[]] = (List.range (c.types ++ [decl]).length).map
        fun i => (c.membersOf ⟨i⟩).map (·.id)
      rw [List.length_append, List.length_singleton, List.range_succ, List.map_append,
        ← aligned.typeMembers, List.map_singleton, none, List.map_nil]

theorem distinct (aligned : c.Aligned) (distinct : c.names.Nodup) : d.names.Nodup := by
  rw [stored.names aligned]
  split
  · exact distinct
  · rename_i unknown
    have new := aligned.lookup_eq_none_iff.mp (Option.not_isSome_iff_eq_none.mp unknown)
    exact distinct.append (List.nodup_singleton name) (List.disjoint_singleton.mpr new)

end Stored

namespace Aligned

variable (aligned : c.Aligned)

theorem empty : Catalog.empty.Aligned := ⟨nofun, nofun, nofun, rfl, rfl⟩

theorem initial : Catalog.initial.Aligned := (insert_stored _).aligned .empty

include aligned

theorem attachAll (rs : List (Element × Record)) : (c.attachAll rs).Aligned :=
  ⟨aligned.typeNumbered, aligned.numbered, aligned.housed, aligned.byName, aligned.typeMembers⟩

theorem define (x : TypeDef) : (c.define x).2.Aligned :=
  ((insert_stored (x.declared root)).aligned aligned).attachAll _

theorem declareAbsent (name : String) : (c.declareAbsent name).2.Aligned :=
  (declareAbsent_stored name).aligned aligned

theorem withMember (x : MemberDef) (issued : on.index < c.types.length) :
    (c.withMember on x).Aligned where
  typeNumbered := aligned.typeNumbered
  numbered := aligned.numbered.withMember
  housed member there := by
    rcases List.mem_append.mp there with before | new
    · exact aligned.housed member before
    · rw [List.mem_singleton.mp new]
      exact issued
  byName := aligned.byName
  typeMembers := by
    apply List.ext_getElem?
    intro i
    show (c.typeMembers.modify on.index (· ++ [⟨c.members.length⟩]))[i]? =
      ((List.range c.types.length).map _)[i]?
    rw [List.getElem?_modify, aligned.typeMembers, List.getElem?_map, List.getElem?_map]
    rcases Nat.lt_or_ge i c.types.length with bound | beyond
    · rw [List.getElem?_range bound]
      by_cases here : on.index = i
      · obtain rfl : on = ⟨i⟩ := TypeId.eq_of_index here
        simp only [Option.map_eq_map, Option.map_some, ↓reduceIte, membersOf_withMember,
          List.map_append]
        rfl
      · have different : (⟨i⟩ : TypeId) ≠ on := fun same => here (congrArg TypeId.index same).symm
        simp only [Option.map_eq_map, Option.map_some, here, ↓reduceIte,
          membersOf_withMember_ne different]
    · rw [List.getElem?_eq_none (by rw [List.length_range]; exact beyond)]
      rfl

end Aligned

/-- Whatever was added and replaced, the maps of a catalog say what its tables say. -/
theorem Built.aligned (built : c.Built) : c.Aligned := by
  induction built with
  | initial => exact .initial
  | define x _ ih => exact ih.define x
  | declareAbsent name _ ih => exact ih.declareAbsent name
  | addMember on x _ added ih =>
    obtain ⟨listed, _, rfl⟩ := addMember_cases added
    exact ih.withMember x (ih.length_typeMembers ▸ listed)
  | attach e r _ ih => exact ih.attachAll _

/-- No two types have one name. -/
theorem Built.distinct (built : c.Built) : c.names.Nodup := by
  induction built with
  | initial => exact List.nodup_singleton rootName
  | @define c x before ih => exact (insert_stored (x.declared root)).distinct before.aligned ih
  | declareAbsent name before ih => exact (declareAbsent_stored name).distinct before.aligned ih
  | addMember on x _ added ih =>
    obtain ⟨_, _, rfl⟩ := addMember_cases added
    exact ih
  | attach e r _ ih => exact ih

end Lineage.Catalog
