import Lineage.Catalog.Query
import Mathlib.Data.List.Nodup

namespace Lineage

theorem TypeId.eq_of_index {a b : TypeId} (same : a.index = b.index) : a = b := by
  cases a
  cases b
  exact congrArg TypeId.mk same

theorem MemberId.eq_of_index {a b : MemberId} (same : a.index = b.index) : a = b := by
  cases a
  cases b
  exact congrArg MemberId.mk same

namespace Catalog

inductive Built : Catalog → Prop
  | initial : Built .initial
  | define {c : Catalog} (d : TypeDef) : Built c → Built (c.define d).2
  | declareAbsent {c : Catalog} (name : String) : Built c → Built (c.declareAbsent name).2
  | addMember {c after : Catalog} {id : MemberId} (on : TypeId) (d : MemberDef) :
    Built c → c.addMember on d = some (id, after) → Built after
  | attach {c : Catalog} (e : Element) (r : Record) : Built c → Built (c.attach e r)

def Numbered (c : Catalog) : Prop := ∀ id decl, c.member? id = some decl → decl.id = id

def membersOf (c : Catalog) (id : TypeId) : List MemberDecl := c.members.filter (·.declaring = id)

def ofDecls (types : List TypeDecl) (members : List MemberDecl) (records : List (Element × Record)) :
    Catalog where
  types := types
  members := members
  typeMembers := (List.range types.length).map fun i =>
    (members.filter (·.declaring = ⟨i⟩)).map (·.id)
  byName := types.zipIdx.map fun (decl, i) => (decl.name, ⟨i⟩)
  records := records

variable {c : Catalog} {on : TypeId} {d : MemberDef}

theorem mem_memberIds {type : TypeId} {id : MemberId} :
    id ∈ c.memberIds type ↔ ∃ ids, c.typeMembers[type.index]? = some ids ∧ id ∈ ids := by
  unfold memberIds
  cases c.typeMembers[type.index]? with
  | none => simp only [Option.getD_none, List.not_mem_nil, reduceCtorEq, false_and, exists_false]
  | some ids => simp only [Option.getD_some, Option.some.injEq, exists_eq_left']

/-- A refused member changes nothing, so a catalog that took one keeps a list for the type it is on. -/
theorem addMember_cases {after : Catalog} {id : MemberId}
    (added : c.addMember on d = some (id, after)) :
    on.index < c.typeMembers.length ∧ id = ⟨c.members.length⟩ ∧ after = c.withMember on d := by
  unfold addMember at added
  split at added
  · rename_i issued
    cases added
    exact ⟨issued, rfl, rfl⟩
  · cases added

theorem addMember_of_listed (d : MemberDef) (listed : on.index < c.typeMembers.length) :
    c.addMember on d = some (⟨c.members.length⟩, c.withMember on d) := if_pos listed

theorem membersOf_withMember : (c.withMember on d).membersOf on =
    c.membersOf on ++ [d.declared ⟨c.members.length⟩ on] := by
  show (c.members ++ [_]).filter _ = _
  rw [List.filter_append]
  congr 1
  exact List.filter_cons_of_pos (decide_eq_true rfl)

theorem membersOf_withMember_ne {other : TypeId} (different : other ≠ on) :
    (c.withMember on d).membersOf other = c.membersOf other := by
  show (c.members ++ [_]).filter _ = _
  rw [List.filter_append, List.filter_cons_of_neg, List.filter_nil, List.append_nil]
  · rfl
  · exact fun same => different (of_decide_eq_true same).symm

theorem Numbered.withMember (numbered : c.Numbered) : (c.withMember on d).Numbered := by
  intro id decl found
  have found : (c.members ++ [_])[id.index]? = some decl := found
  rcases Nat.lt_or_ge id.index c.members.length with earlier | later
  · rw [List.getElem?_append_left earlier] at found
    exact numbered id decl found
  · rw [List.getElem?_append_right later] at found
    obtain ⟨position, rfl⟩ := List.getElem?_eq_some_iff.mp found
    have last : id.index = c.members.length := by
      simp only [List.length_singleton] at position
      omega
    simp only [last, Nat.sub_self, List.getElem_singleton]
    exact MemberId.eq_of_index last.symm

theorem mem_members_of_memberDecl {id : MemberId} {decl : MemberDecl}
    (known : c.memberDecl id = .ok decl) : decl ∈ c.members := by
  unfold memberDecl at known
  split at known
  · rename_i found
    cases known
    exact List.mem_of_getElem? found
  · cases known

/-- Members are listed in the order of their ids. -/
theorem Numbered.ids_increase (numbered : c.Numbered) :
    c.members.Pairwise fun d e => d.id.index < e.id.index := by
  have own {i : Nat} (bound : i < c.members.length) : c.members[i].id = ⟨i⟩ :=
    numbered ⟨i⟩ _ (List.getElem?_eq_getElem bound)
  rw [List.pairwise_iff_getElem]
  intro i j first second before
  rw [own first, own second]
  exact before

theorem Numbered.ids_nodup (numbered : c.Numbered) : (c.members.map (·.id)).Nodup := by
  rw [List.Nodup, List.pairwise_map]
  exact numbered.ids_increase.imp fun before same => Nat.ne_of_lt before (congrArg _ same)

theorem Numbered.member? {decl : MemberDecl} {type : TypeId} (numbered : c.Numbered)
    (declared : decl ∈ c.membersOf type) : c.member? decl.id = some decl := by
  obtain ⟨i, found⟩ := List.mem_iff_getElem?.mp (List.mem_filter.mp declared).1
  have same := numbered ⟨i⟩ decl found
  exact same ▸ found

theorem Numbered.memberDecl {decl : MemberDecl} {type : TypeId} (numbered : c.Numbered)
    (declared : decl ∈ c.membersOf type) : c.memberDecl decl.id = .ok decl ∧ decl.declaring = type := by
  refine ⟨?_, of_decide_eq_true (List.mem_filter.mp declared).2⟩
  rw [Catalog.memberDecl, numbered.member? declared]

/-- Members of different types have different ids. -/
theorem Numbered.ids_of_types_nodup (numbered : c.Numbered) {types : List TypeId}
    (once : types.Nodup) (p : MemberDecl → Bool) :
    ((types.flatMap fun t => (c.membersOf t).filter p).map (·.id)).Nodup := by
  rw [List.map_flatMap, List.nodup_flatMap]
  refine ⟨fun t _ => ((List.filter_sublist.trans List.filter_sublist).map _).nodup
    numbered.ids_nodup, once.imp fun {t u} differ x first second => ?_⟩
  obtain ⟨d, listed, rfl⟩ := List.mem_map.mp first
  obtain ⟨e, listedToo, same⟩ := List.mem_map.mp second
  obtain ⟨known, onFirst⟩ := numbered.memberDecl (List.mem_filter.mp listed).1
  obtain ⟨knownToo, onSecond⟩ := numbered.memberDecl (List.mem_filter.mp listedToo).1
  rw [same, known] at knownToo
  cases knownToo
  exact differ (onFirst.symm.trans onSecond)

end Catalog

end Lineage
