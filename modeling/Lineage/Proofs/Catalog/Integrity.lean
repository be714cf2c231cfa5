import Lineage.Proofs.Model.Filling

namespace Lineage.Catalog

open Relation

inductive Step (c : Catalog) : Catalog → Prop
  | define (d : TypeDef) : Step c (c.define d).2
  | declareAbsent (name : String) : Step c (c.declareAbsent name).2
  | addMember {after : Catalog} {id : MemberId} (on : TypeId) (d : MemberDef) :
    c.addMember on d = some (id, after) → Step c after
  | attach (e : Element) (r : Record) : Step c (c.attach e r)

/-- Names and ids tell the same types apart, every declaration is where its id says, every type has a
    list of members and takes new ones, and every member is listed once, on the type that declares
    it. -/
structure Coherent (c : Catalog) : Prop where
  lookup : ∀ name id, c.lookup name = some id ↔ id.index < c.typeCount ∧ c.typeName id = .ok name
  typeIds : ∀ id decl, c.typeDecl id = .ok decl → decl.id = id
  memberIds : ∀ id decl, c.memberDecl id = .ok decl → decl.id = id
  root : c.lookup rootName = some root ∧ root = (empty.insert rootDecl).1 ∧ root.index = 0
  lists : c.typeMembers.length = c.typeCount
  takes : ∀ on d, on.index < c.typeCount → ∃ id after, c.addMember on d = some (id, after)
  once : ∀ id : MemberId,
    c.typeMembers.flatten.count id = if id.index < c.members.length then 1 else 0
  declaring : ∀ id decl, c.memberDecl id = .ok decl →
    ∃ ids, c.typeMembers[decl.declaring.index]? = some ids ∧ id ∈ ids
  inOrder : ∀ ids ∈ c.typeMembers, ids.Pairwise fun a b => a.index < b.index

/-- What a catalog has is still there in another one: the names of its types, its members as they
    are, and the records of every element, which may be followed by new ones. -/
structure Keeps (c d : Catalog) : Prop where
  names : ∀ id name, c.typeName id = .ok name → d.typeName id = .ok name
  members : ∀ id decl, c.memberDecl id = .ok decl → d.memberDecl id = .ok decl
  records : ∀ e, c.attached e <+: d.attached e

variable {c d : Catalog} {id : TypeId} {name : String}

theorem typeName_eq_ok_iff : c.typeName id = .ok name ↔ c.names[id.index]? = some name := by
  constructor
  · intro known
    obtain ⟨decl, there, same⟩ := bind_ok known
    cases same
    exact name_of_found (type?_of_typeDecl there)
  · intro there
    obtain ⟨decl, found, rfl⟩ := type?_of_name there
    simp only [typeName, typeDecl, found, Bind.bind, Except.bind]
    rfl

theorem memberDecl_eq_ok_iff {id : MemberId} {decl : MemberDecl} :
    c.memberDecl id = .ok decl ↔ c.members[id.index]? = some decl := by
  rw [memberDecl, member?]
  cases c.members[id.index]? with
  | none =>
    constructor
    · intro known
      cases known
    · intro known
      cases known
  | some found => rw [Except.ok.injEq, Option.some.injEq]

namespace Keeps

theorem refl (c : Catalog) : c.Keeps c := ⟨fun _ _ => id, fun _ _ => id, fun _ => List.prefix_rfl⟩

theorem trans {later : Catalog} (first : c.Keeps d) (second : d.Keeps later) : c.Keeps later where
  names id name known := second.names id name (first.names id name known)
  members id decl known := second.members id decl (first.members id decl known)
  records e := (first.records e).trans (second.records e)

theorem of_extended (names : c.names <+: d.names) (members : c.members <+: d.members)
    (records : c.records <+: d.records) : c.Keeps d where
  names id name known := by
    rw [typeName_eq_ok_iff] at known ⊢
    obtain ⟨bound, rfl⟩ := List.getElem?_eq_some_iff.mp known
    exact List.prefix_iff_getElem?.mp names _ bound
  members id decl known := by
    rw [memberDecl_eq_ok_iff] at known ⊢
    obtain ⟨bound, rfl⟩ := List.getElem?_eq_some_iff.mp known
    exact List.prefix_iff_getElem?.mp members _ bound
  records e := records.filterMap _

theorem attachAll (c : Catalog) (rs : List (Element × Record)) : c.Keeps (c.attachAll rs) :=
  of_extended List.prefix_rfl List.prefix_rfl (List.prefix_append _ _)

end Keeps

/-- A type that is stored under a known name takes that name's place. -/
theorem Stored.keeps (stored : c.Stored name id d) (aligned : c.Aligned) : c.Keeps d := by
  refine .of_extended ?_ (stored.members ▸ List.prefix_rfl) (stored.records ▸ List.prefix_rfl)
  rw [stored.names aligned]
  split
  · exact List.prefix_rfl
  · exact List.prefix_append _ _

/-- No step takes away or changes what it finds, except a type that is replaced, which keeps its
    name. -/
theorem Step.keeps (step : c.Step d) (aligned : c.Aligned) : c.Keeps d := by
  cases step with
  | define x => exact ((insert_stored (x.declared root)).keeps aligned).trans (.attachAll _ _)
  | declareAbsent name => exact (declareAbsent_stored name).keeps aligned
  | addMember on x added =>
    obtain ⟨_, _, rfl⟩ := addMember_cases added
    exact .of_extended List.prefix_rfl (List.prefix_append _ _) (List.prefix_append _ _)
  | attach e r => exact .attachAll c _

theorem Step.built (step : c.Step d) (built : c.Built) : d.Built := by
  cases step with
  | define x => exact .define x built
  | declareAbsent name => exact .declareAbsent name built
  | addMember on x added => exact .addMember on x built added
  | attach e r => exact .attach e r built

/-- The steps of any run are kept, so long as it begins with a catalog that came about by steps. -/
theorem keeps_of_steps (steps : ReflTransGen Step c d) (built : c.Built) : d.Built ∧ c.Keeps d := by
  induction steps with
  | refl => exact ⟨built, .refl c⟩
  | tail _ step ih => exact ⟨step.built ih.1, ih.2.trans (step.keeps ih.1.aligned)⟩

namespace Aligned

variable (aligned : c.Aligned) {member : MemberId} {decl : MemberDecl}
include aligned

theorem flatten_typeMembers : c.typeMembers.flatten =
    (((List.range c.typeCount).map TypeId.mk).flatMap c.membersOf).map (·.id) := by
  rw [aligned.typeMembers, List.map_flatMap, List.flatMap_map, List.flatMap_def]
  rfl

theorem flatten_typeMembers_nodup : c.typeMembers.flatten.Nodup := by
  have types : ((List.range c.typeCount).map TypeId.mk).Nodup :=
    List.nodup_range.map fun i j same => congrArg TypeId.index same
  have once := aligned.numbered.ids_of_types_nodup types fun _ => true
  simp only [List.filter_true] at once
  rw [aligned.flatten_typeMembers]
  exact once

theorem mem_typeMembers (known : c.memberDecl member = .ok decl) :
    ∃ ids, c.typeMembers[decl.declaring.index]? = some ids ∧ member ∈ ids := by
  have there := mem_members_of_memberDecl known
  have own : decl.id = member := aligned.numbered member decl (memberDecl_eq_ok_iff.mp known)
  refine mem_memberIds.mp ?_
  rw [aligned.memberIds, ← own]
  exact List.mem_map_of_mem (List.mem_filter.mpr ⟨there, decide_eq_true rfl⟩)

theorem issued_of_listed (listed : member ∈ c.typeMembers.flatten) :
    member.index < c.members.length := by
  rw [aligned.flatten_typeMembers] at listed
  obtain ⟨decl, there, rfl⟩ := List.mem_map.mp listed
  obtain ⟨type, _, there⟩ := List.mem_flatMap.mp there
  exact (List.getElem?_eq_some_iff.mp (aligned.numbered.member? there)).1

theorem count_typeMembers (member : MemberId) :
    c.typeMembers.flatten.count member = if member.index < c.members.length then 1 else 0 := by
  split
  · rename_i issued
    have known : c.memberDecl member = .ok c.members[member.index] :=
      memberDecl_eq_ok_iff.mpr (List.getElem?_eq_getElem issued)
    obtain ⟨ids, listed, there⟩ := aligned.mem_typeMembers known
    have there := List.mem_flatten.mpr ⟨ids, List.mem_of_getElem? listed, there⟩
    exact List.count_eq_one_of_mem aligned.flatten_typeMembers_nodup there
  · rename_i unknown
    exact List.count_eq_zero.mpr fun listed => unknown (aligned.issued_of_listed listed)

theorem typeMembers_inOrder : ∀ ids ∈ c.typeMembers, ids.Pairwise fun a b => a.index < b.index := by
  intro ids listed
  rw [aligned.typeMembers] at listed
  obtain ⟨i, _, rfl⟩ := List.mem_map.mp listed
  rw [List.pairwise_map]
  exact aligned.numbered.ids_increase.sublist List.filter_sublist

end Aligned

theorem Built.coherent (built : c.Built) (grown : Catalog.initial.Keeps c) : c.Coherent where
  lookup name id := by
    rw [built.aligned.lookup_eq_some_iff built.distinct, typeName_eq_ok_iff, iff_and_self]
    intro there
    exact (List.getElem?_eq_some_iff.mp there).1.trans_eq c.length_names
  typeIds id decl known := built.aligned.typeNumbered id decl (type?_of_typeDecl known)
  memberIds id decl known := built.aligned.numbered id decl (memberDecl_eq_ok_iff.mp known)
  root := by
    have kept := grown.names root rootName rfl
    rw [typeName_eq_ok_iff] at kept
    exact ⟨(built.aligned.lookup_eq_some_iff built.distinct).mpr kept, rfl, rfl⟩
  lists := built.aligned.length_typeMembers
  takes _ d issued := ⟨_, _, built.aligned.addMember_issued d issued⟩
  once := built.aligned.count_typeMembers
  declaring _ _ known := built.aligned.mem_typeMembers known
  inOrder := built.aligned.typeMembers_inOrder

/-- However a catalog is filled, its tables fit together, and what it has stays as it is filled
    further. -/
theorem steps_coherent {c d : Catalog} (filled : ReflTransGen Step initial c)
    (further : ReflTransGen Step c d) : c.Coherent ∧ c.Keeps d := by
  obtain ⟨built, grown⟩ := keeps_of_steps filled .initial
  exact ⟨built.coherent grown, (keeps_of_steps further built).2⟩

def sketched : Catalog := (initial.declareAbsent "shape.Base").2.withMember ⟨1⟩ { name := "draw" }

def redrawn : Catalog :=
  ((((sketched.define { name := "shape.Base", flavor := .classType, records := [.ofKind ⟨0⟩] }).2.define
    { name := rootName, flavor := .interface }).2.withMember ⟨0⟩ { name := "wait" }).declareAbsent
      "shape.Base").2

theorem sketched_coherent : sketched.Coherent ∧ sketched.Keeps redrawn := by
  have filled : ReflTransGen Step initial sketched :=
    .tail (.single (.declareAbsent "shape.Base"))
      (.addMember ⟨1⟩ { name := "draw" } (addMember_of_listed _ (by decide)))
  have further : ReflTransGen Step sketched redrawn :=
    .tail (.tail (.tail (.single (.define _)) (.define _))
      (.addMember ⟨0⟩ { name := "wait" } (addMember_of_listed _ (by decide)))) (.declareAbsent _)
  exact steps_coherent filled further

end Lineage.Catalog
