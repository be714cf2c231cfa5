import Lineage.Proofs.Model.Loaded
import Lineage.Proofs.Pairing.Specs

namespace Lineage

namespace Pairing

variable {p : Pairing} {c d : Catalog} {a b : TypeId} {t : Model.TypeSpec}

structure Stored (p : Pairing) (c d : Catalog) (x y : MemberDecl) : Prop where
  member : p.Member x y
  records : List.Forall₂ p.record (c.attached (.member x.id)) (d.attached (.member y.id))
  paramRecords : ∀ index, List.Forall₂ p.record (c.attached (.parameter x.id index))
    (d.attached (.parameter y.id index))

theorem superclassFor_related {x y : TypeDef} (root : p.type Catalog.root Catalog.root)
    (related : p.Described a x y) :
    Option.Rel (p.Ref a) (Catalog.superclassFor x) (Catalog.superclassFor y) := by
  have given : p.Ref a (x.superclass.getD ⟨Catalog.root, []⟩)
      (y.superclass.getD ⟨Catalog.root, []⟩) := by
    obtain ⟨first, second⟩ | ⟨_, _, first, second, ref⟩ := rel_cases related.superclass
    · rw [first, second]
      exact ⟨root, .nil⟩
    · rw [first, second]
      exact ref
  unfold Catalog.superclassFor
  rw [related.flavor]
  cases y.flavor with
  | classType | enumeration => exact .some given
  | interface | recordKind => exact .none

theorem declared_related {x y : TypeDef} (root : p.type Catalog.root Catalog.root)
    (related : p.Described a x y) : p.Decl a (x.declared a) (y.declared b) where
  name := related.name
  flavor := related.flavor
  params := related.params
  superclass := superclassFor_related root related
  interfaces := related.interfaces
  enclosing := related.enclosing
  inherited := related.inherited
  present := rfl

theorem reserved_related (name : String) : p.Decl a (.reserved a name) (.reserved b name) :=
  ⟨rfl, rfl, .nil, .none, .nil, .none, rfl, rfl⟩

theorem recordsAt_related {x y : MemberDef} (related : p.Defined a x y) (index : Nat) :
    List.Forall₂ p.record (x.recordsAt index) (y.recordsAt index) := by
  apply List.rel_map (fun _ _ same => And.right same)
  apply List.rel_filter _ related.paramRecords
  intro entry other same
  show decide _ = true ↔ decide _ = true
  rw [same.1]

theorem stored_related {x y : MemberDecl} {first second : MemberDef} (paired : p.type a b)
    (ids : p.member x.id y.id) (related : p.Defined a first second)
    (stores : Model.Stores c a first x) (storesToo : Model.Stores d b second y) : p.Stored c d x y := by
  have member : p.Member (first.declared x.id a) (second.declared y.id b) := {
    id := ids
    name := related.name
    declaring := paired
    visibility := related.visibility
    params := related.params
    returns := related.returns
    default := related.default
    bridgeOf := related.bridgeOf }
  constructor
  · rw [stores.content, storesToo.content]
    exact member
  · rw [stores.records, storesToo.records]
    exact related.records
  · intro index
    rw [stores.paramRecords, storesToo.paramRecords]
    exact recordsAt_related related index

/-- Members that stem from the same specifications say the same, if they are paired by position. -/
theorem declares_related (names : p.Names c d) (paired : p.type a b)
    {earlier others decls decls' : List MemberDecl} {specs : List Model.MemberSpec}
    (first : Model.Declares c t a earlier specs decls)
    (second : Model.Declares d t b others specs decls')
    (before : List.Forall₂ p.Added (earlier.map .ofDecl) (others.map .ofDecl))
    (ids : ∀ (i : Nat) (x y : MemberDecl), decls[i]? = some x → decls'[i]? = some y → p.member x.id y.id) :
    List.Forall₂ (p.Stored c d) decls decls' := by
  induction first generalizing others decls' with
  | nil =>
    cases second
    exact .nil
  | @cons earlier decls specs m x defn defined stores _ ih =>
    cases second with
    | @cons _ _ _ _ y _ definedToo storesToo later =>
      have agree := names.memberDef a t m before
      rw [defined, definedToo] at agree
      cases agree with
      | ok related =>
        have same := stored_related paired (ids 0 x y rfl rfl) related stores storesToo
        have added : p.Added (.ofDecl x) (.ofDecl y) :=
          ⟨same.member.name, same.member.id, isSome_eq_of_rel same.member.bridgeOf⟩
        apply List.Forall₂.cons same
        apply ih later
        · rw [List.map_append, List.map_append]
          exact List.rel_append before (.cons added .nil)
        · exact fun i x y => ids (i + 1) x y

end Pairing

namespace Catalog

variable {c d : Catalog}

def memberAt (c : Catalog) (type : TypeId) (i : Nat) : Option MemberId :=
  ((c.membersOf type)[i]?).map (·.id)

theorem Sound.memberAt_inj (sound : c.Sound) {a b : TypeId} {i j : Nat} {id : MemberId}
    (first : c.memberAt a i = some id) (second : c.memberAt b j = some id) : a = b ∧ i = j := by
  obtain ⟨x, listed, rfl⟩ := Option.map_eq_some_iff.mp first
  obtain ⟨y, listedToo, same⟩ := Option.map_eq_some_iff.mp second
  obtain ⟨known, on⟩ := sound.numbered.memberDecl (List.mem_of_getElem? listed)
  obtain ⟨knownToo, onToo⟩ := sound.numbered.memberDecl (List.mem_of_getElem? listedToo)
  rw [same, known] at knownToo
  cases knownToo
  obtain rfl : a = b := on.symm.trans onToo
  refine ⟨rfl, ?_⟩
  have distinct : ((c.membersOf a).map (·.id)).Nodup :=
    sound.numbered.ids_nodup.sublist (List.filter_sublist.map _)
  obtain ⟨bound, here⟩ := List.getElem?_eq_some_iff.mp listed
  obtain ⟨boundToo, there⟩ := List.getElem?_eq_some_iff.mp listedToo
  have once := distinct.of_map _
  exact once.getElem_inj_iff.mp (here.trans there.symm)

theorem name_inj (distinct : c.names.Nodup) {a b : TypeId} {name : String}
    (first : c.names[a.index]? = some name) (second : c.names[b.index]? = some name) : a = b := by
  have bound := (List.getElem?_eq_some_iff.mp first).1
  exact TypeId.eq_of_index ((List.getElem?_inj bound distinct).mp (first.trans second.symm))

end Catalog

namespace Pairing

variable {p : Pairing} {c d : Catalog}

def byName (c d : Catalog) (sound : c.Sound) (soundToo : d.Sound) (parameter : MemberId → Nat → Prop)
    (error : QueryError → QueryError → Prop) : Pairing where
  type a b := ∃ name, c.names[a.index]? = some name ∧ d.names[b.index]? = some name
  member x y := ∃ a b i, (∃ name, c.names[a.index]? = some name ∧ d.names[b.index]? = some name) ∧
    c.memberAt a i = some x ∧ d.memberAt b i = some y
  parameter := parameter
  var _ := Eq
  error := error
  type_unique := by
    constructor
    · rintro a b x ⟨name, first, there⟩ ⟨other, second, thereToo⟩
      obtain rfl := Option.some.inj (there.symm.trans thereToo)
      exact Catalog.name_inj sound.distinct first second
    · rintro x a b ⟨name, there, first⟩ ⟨other, thereToo, second⟩
      obtain rfl := Option.some.inj (there.symm.trans thereToo)
      exact Catalog.name_inj soundToo.distinct first second
  member_unique := by
    constructor
    · rintro x y z ⟨a, b, i, ⟨name, onA, onB⟩, first, there⟩ ⟨a', b', j, ⟨other, onA', onB'⟩, second, thereToo⟩
      obtain ⟨rfl, rfl⟩ := soundToo.memberAt_inj there thereToo
      obtain rfl := Option.some.inj (onB.symm.trans onB')
      obtain rfl := Catalog.name_inj sound.distinct onA onA'
      exact Option.some.inj (first.symm.trans second)
    · rintro x y z ⟨a, b, i, ⟨name, onA, onB⟩, there, first⟩ ⟨a', b', j, ⟨other, onA', onB'⟩, thereToo, second⟩
      obtain ⟨rfl, rfl⟩ := sound.memberAt_inj there thereToo
      obtain rfl := Option.some.inj (onA.symm.trans onA')
      obtain rfl := Catalog.name_inj soundToo.distinct onB onB'
      exact Option.some.inj (first.symm.trans second)
  var_unique _ := biUnique_eq

theorem lookup_related (sound : c.Sound) (soundToo : d.Sound)
    (type_iff : ∀ {a b}, p.type a b ↔
      ∃ name, c.names[a.index]? = some name ∧ d.names[b.index]? = some name)
    (same : c.names.Perm d.names) (name : String) :
    Option.Rel p.type (c.lookup name) (d.lookup name) := by
  by_cases there : name ∈ c.names
  · obtain ⟨i, onC⟩ := List.mem_iff_getElem?.mp there
    obtain ⟨j, onD⟩ := List.mem_iff_getElem?.mp (same.mem_iff.mp there)
    have first : c.lookup name = some ⟨i⟩ := (sound.aligned.lookup_eq_some_iff sound.distinct).mpr onC
    have second : d.lookup name = some ⟨j⟩ :=
      (soundToo.aligned.lookup_eq_some_iff soundToo.distinct).mpr onD
    rw [first, second]
    exact .some (type_iff.mpr ⟨name, onC, onD⟩)
  · rw [sound.aligned.lookup_eq_none_iff.mpr there,
      soundToo.aligned.lookup_eq_none_iff.mpr (mt same.mem_iff.mpr there)]
    exact .none

structure Joins (p : Pairing) (c d : Catalog) : Prop where
  type_iff : ∀ {a b}, p.type a b ↔
    ∃ name, c.names[a.index]? = some name ∧ d.names[b.index]? = some name
  member_iff : ∀ {x y}, p.member x y ↔
    ∃ a b i, p.type a b ∧ c.memberAt a i = some x ∧ d.memberAt b i = some y
  var : ∀ owner name, p.var owner name name

theorem byName_joins (sound : c.Sound) (soundToo : d.Sound) (parameter : MemberId → Nat → Prop)
    (error : QueryError → QueryError → Prop) : (byName c d sound soundToo parameter error).Joins c d :=
  ⟨Iff.rfl, Iff.rfl, fun _ _ => rfl⟩

end Pairing

namespace Model

variable {m n : Model} {c d : Catalog} {a b : TypeId} {t : TypeSpec} {name : String}

namespace Loaded

variable (loaded : Loaded m c)
include loaded

theorem type_cases (there : c.names[a.index]? = some name) :
    (a = Catalog.root ∧ name = Catalog.rootName) ∨
      ∃ t ∈ m.types, t.name = name ∧ Installed c a t := by
  obtain ⟨index⟩ := a
  rw [loaded.names] at there
  cases index with
  | zero => exact .inl ⟨rfl, (Option.some.inj there).symm⟩
  | succ i =>
    rw [List.getElem?_cons_succ, List.getElem?_map] at there
    obtain ⟨t, listed, named⟩ := Option.map_eq_some_iff.mp there
    exact .inr ⟨t, List.mem_of_getElem? listed, named, loaded.installed i t listed⟩

theorem eq_of_name {u : TypeSpec} (there : t ∈ m.types) (thereToo : u ∈ m.types)
    (same : t.name = u.name) : t = u := by
  have once := loaded.sound.distinct
  rw [loaded.names] at once
  exact List.inj_on_of_nodup_map (List.nodup_cons.mp once).2 there thereToo same

theorem root_new (there : t ∈ m.types) : t.name ≠ Catalog.rootName := by
  intro same
  have once := loaded.sound.distinct
  rw [loaded.names] at once
  exact (List.nodup_cons.mp once).1 (List.mem_map.mpr ⟨t, there, same⟩)

theorem names_root : c.names[Catalog.root.index]? = some Catalog.rootName := by
  rw [loaded.names]
  rfl

end Loaded

section

variable {p : Pairing} (joins : p.Joins c d) (loaded : Loaded m c) (loadedToo : Loaded n d)
  (perm : m.types.Perm n.types)
include joins loaded loadedToo

theorem root_paired : p.type Catalog.root Catalog.root :=
  joins.type_iff.mpr ⟨Catalog.rootName, loaded.names_root, loadedToo.names_root⟩

include perm

theorem paired_cases (paired : p.type a b) :
    (a = Catalog.root ∧ b = Catalog.root) ∨ ∃ t ∈ m.types, Installed c a t ∧ Installed d b t := by
  obtain ⟨name, onA, onB⟩ := joins.type_iff.mp paired
  obtain ⟨rfl, rfl⟩ | ⟨t, there, rfl, installed⟩ := loaded.type_cases onA
  · obtain ⟨rfl, _⟩ | ⟨u, there, same, _⟩ := loadedToo.type_cases onB
    · exact .inl ⟨rfl, rfl⟩
    · exact absurd same (loadedToo.root_new there)
  · obtain ⟨rfl, same⟩ | ⟨u, thereToo, same, installedToo⟩ := loadedToo.type_cases onB
    · exact absurd same (loaded.root_new there)
    · obtain rfl := loaded.eq_of_name (perm.mem_iff.mpr thereToo) there same
      exact .inr ⟨u, there, installed, installedToo⟩

theorem names_joined : p.Names c d := by
  have same : c.names.Perm d.names := by
    rw [loaded.names, loadedToo.names]
    exact (perm.map _).cons _
  exact ⟨Pairing.lookup_related loaded.sound loadedToo.sound joins.type_iff same, joins.var⟩

theorem described_joined {x y : TypeDef} (defined : typeDef c t = .ok x) (definedToo : typeDef d t = .ok y) :
    p.Described a x y := by
  have agree := (names_joined joins loaded loadedToo perm).typeDef a t
  rw [defined, definedToo] at agree
  cases agree with
  | ok related => exact related

theorem declared_joined (installed : Installed c a t) (installedToo : Installed d b t) :
    Option.Rel (p.Decl a) (c.type? a) (d.type? b) ∧
      List.Forall₂ p.record (c.attached (.type a)) (d.attached (.type b)) := by
  have root := root_paired joins loaded loadedToo
  cases installed with
  | absent absent known _ noRecords =>
    cases installedToo with
    | absent _ knownToo _ noRecordsToo =>
      rw [known, knownToo, noRecords, noRecordsToo]
      exact ⟨.some (Pairing.reserved_related _), .nil⟩
    | present present => rw [absent] at present; cases present
  | present present defined known records _ =>
    cases installedToo with
    | absent absent => rw [absent] at present; cases present
    | present _ definedToo knownToo recordsToo _ =>
      have related := described_joined joins loaded loadedToo perm defined definedToo (a := a)
      rw [known, knownToo, records, recordsToo]
      exact ⟨.some (Pairing.declared_related root related), related.records⟩

theorem membersOf_joined (paired : p.type a b) :
    List.Forall₂ (p.Stored c d) (c.membersOf a) (d.membersOf b) := by
  obtain ⟨rfl, rfl⟩ | ⟨t, _, installed, installedToo⟩ :=
    paired_cases joins loaded loadedToo perm paired
  · rw [loaded.rootMembers, loadedToo.rootMembers]
    exact .nil
  · cases installed with
    | absent absent _ noMembers _ =>
      cases installedToo with
      | absent _ _ noMembersToo _ =>
        rw [noMembers, noMembersToo]
        exact .nil
      | present present => rw [absent] at present; cases present
    | present present _ _ _ declares =>
      cases installedToo with
      | absent absent => rw [absent] at present; cases present
      | present _ _ _ _ declaresToo =>
        have names := names_joined joins loaded loadedToo perm
        apply Pairing.declares_related names paired declares declaresToo .nil
        intro i x y listed listedToo
        refine joins.member_iff.mpr ⟨a, b, i, paired, ?_, ?_⟩
        · exact Option.map_eq_some_iff.mpr ⟨x, listed, rfl⟩
        · exact Option.map_eq_some_iff.mpr ⟨y, listedToo, rfl⟩

theorem member_joined {x y : MemberId} (paired : p.member x y) :
    ∃ decl other, c.member? x = some decl ∧ d.member? y = some other ∧ decl.id = x ∧ other.id = y ∧
      p.Stored c d decl other := by
  obtain ⟨a, b, i, types, first, second⟩ := joins.member_iff.mp paired
  obtain ⟨decl, listed, rfl⟩ := Option.map_eq_some_iff.mp first
  obtain ⟨other, listedToo, rfl⟩ := Option.map_eq_some_iff.mp second
  have known : c.member? decl.id = some decl :=
    loaded.sound.numbered.member? (List.mem_of_getElem? listed)
  have knownToo : d.member? other.id = some other :=
    loadedToo.sound.numbered.member? (List.mem_of_getElem? listedToo)
  have members := membersOf_joined joins loaded loadedToo perm types
  obtain ⟨none, _⟩ | ⟨_, _, here, there, stored⟩ := rel_cases (getElem?_related members i)
  · rw [listed] at none
    cases none
  · rw [listed] at here
    rw [listedToo] at there
    cases here
    cases there
    exact ⟨decl, other, known, knownToo, rfl, rfl, stored⟩

theorem attached_joined {e f : Element} (paired : p.element e f) :
    List.Forall₂ p.record (c.attached e) (d.attached f) := by
  cases e with
  | type a =>
    cases f with
    | type b =>
      obtain ⟨rfl, rfl⟩ | ⟨t, _, installed, installedToo⟩ :=
        paired_cases joins loaded loadedToo perm paired
      · rw [loaded.rootRecords, loadedToo.rootRecords]
        exact .nil
      · exact (declared_joined joins loaded loadedToo perm installed installedToo).2
    | member y => cases paired
    | parameter y j => cases paired
  | member x =>
    cases f with
    | type b => cases paired
    | member y =>
      obtain ⟨_, _, _, _, rfl, rfl, stored⟩ := member_joined joins loaded loadedToo perm paired
      exact stored.records
    | parameter y j => cases paired
  | parameter x i =>
    cases f with
    | type b => cases paired
    | member y => cases paired
    | parameter y j =>
      obtain ⟨paired, rfl, _⟩ := paired
      obtain ⟨_, _, _, _, rfl, rfl, stored⟩ := member_joined joins loaded loadedToo perm paired
      exact stored.paramRecords i

theorem type_joined (paired : p.type a b) : Option.Rel (p.Decl a) (c.type? a) (d.type? b) := by
  obtain ⟨rfl, rfl⟩ | ⟨t, _, installed, installedToo⟩ :=
    paired_cases joins loaded loadedToo perm paired
  · rw [loaded.root, loadedToo.root]
    exact .some ⟨rfl, rfl, .nil, .none, .nil, .none, rfl, rfl⟩
  · exact (declared_joined joins loaded loadedToo perm installed installedToo).1

theorem absent_joined {decl : TypeDecl} (paired : p.type a b) (found : c.type? a = some decl)
    (gone : decl.present = false) : ∃ t ∈ m.types, t.absent = true ∧ decl.name = t.name := by
  obtain ⟨rfl, rfl⟩ | ⟨t, there, installed, _⟩ := paired_cases joins loaded loadedToo perm paired
  · rw [loaded.root] at found
    cases found
    cases gone
  · cases installed with
    | absent absent known _ _ =>
      rw [known] at found
      cases found
      exact ⟨t, there, absent, rfl⟩
    | present _ _ known _ _ =>
      rw [known] at found
      cases found
      cases gone

/-- Catalogs loaded from models that list the same types say the same of everything. -/
theorem fits_of_loaded
    (absent : ∀ t ∈ m.types, t.absent = true →
      p.error (.typeNotPresent t.name) (.typeNotPresent t.name))
    (asked : ∀ x index decl reason, p.parameter x index → c.member? x = some decl →
      decl.params.length ≤ index → p.error (.inconsistent reason) (.inconsistent reason)) :
    p.Fits c d where
  typeCount := by
    apply Or.inl
    unfold Catalog.typeCount
    rw [← Catalog.length_names, ← Catalog.length_names, loaded.names, loadedToo.names]
    exact ((perm.map _).cons _).length_eq
  root := root_paired joins loaded loadedToo
  type := type_joined joins loaded loadedToo perm
  member paired := by
    obtain ⟨_, _, known, knownToo, _, _, stored⟩ := member_joined joins loaded loadedToo perm paired
    rw [known, knownToo]
    exact .some stored.member
  memberIds paired := by
    rw [loaded.sound.aligned.memberIds, loadedToo.sound.aligned.memberIds]
    exact List.rel_map (fun _ _ stored => stored.member.id)
      (membersOf_joined joins loaded loadedToo perm paired)
  attached := attached_joined joins loaded loadedToo perm
  unknownType paired unknown := by
    obtain ⟨name, there, _⟩ := joins.type_iff.mp paired
    obtain ⟨_, known, _⟩ := Catalog.type?_of_name there
    rw [unknown] at known
    cases known
  unknownMember paired unknown := by
    obtain ⟨_, _, known, _⟩ := member_joined joins loaded loadedToo perm paired
    rw [unknown] at known
    cases known
  absent paired found gone := by
    obtain ⟨t, there, marked, named⟩ := absent_joined joins loaded loadedToo perm paired found gone
    rw [named]
    exact absent t there marked
  outOfRange _ within found beyond := asked _ _ _ _ within found beyond

end

end Model

end Lineage
