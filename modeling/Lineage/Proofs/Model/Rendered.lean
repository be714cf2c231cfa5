import Lineage.Proofs.Model.Reads

namespace Lineage

namespace Model

/-- How a superclass reads: a type that cannot have one has none, whatever is said, and a class that
    says none has the root. -/
inductive ReadsSuperclass (c : Catalog) (t : TypeSpec) : Option SuperRef → Prop
  | none : t.flavor = .interface ∨ t.flavor = .recordKind → ReadsSuperclass c t none
  | some {r : SuperRef} : t.flavor = .classType ∨ t.flavor = .enumeration →
    ReadsSuper c t (t.superclass.getD ⟨Catalog.rootName, []⟩) r → ReadsSuperclass c t (some r)

/-- A bridge stands for the first earlier member of that name that is no bridge itself. -/
def ReadsBridge (earlier : List MemberDecl) (name : String) (id : MemberId) : Prop :=
  ∃ original, earlier.find? (fun d => d.name = name && !d.isBridge) = some original ∧ original.id = id

structure ReadsMember (c : Catalog) (t : TypeSpec) (on : TypeId) (earlier : List MemberDecl)
    (m : MemberSpec) (decl : MemberDecl) : Prop where
  name : decl.name = m.name
  declaring : decl.declaring = on
  visibility : decl.visibility = m.visibility
  params : List.Forall₂ (ReadsArg c t) m.params decl.params
  noReturns : m.returns = none → decl.returns = .void
  returns : ∀ text, m.returns = some text → ReadsReturn c text.toList decl.returns
  default : Option.Rel (ReadsValue c) m.default decl.default
  bridgeOf : Option.Rel (ReadsBridge earlier) m.bridgeOf decl.bridgeOf
  records : List.Forall₂ (ReadsRecord c) m.records (c.attached (.member decl.id))
  paramRecords : ∀ index,
    List.Forall₂ (ReadsRecord c) (m.recordsAt index) (c.attached (.parameter decl.id index))

inductive ReadsMembers (c : Catalog) (t : TypeSpec) (on : TypeId) :
    List MemberDecl → List MemberSpec → List MemberDecl → Prop
  | nil {earlier : List MemberDecl} : ReadsMembers c t on earlier [] []
  | cons {earlier decls : List MemberDecl} {specs : List MemberSpec} {m : MemberSpec}
    {decl : MemberDecl} : ReadsMember c t on earlier m decl →
    ReadsMembers c t on (earlier ++ [decl]) specs decls →
    ReadsMembers c t on earlier (m :: specs) (decl :: decls)

structure ReadsPresent (c : Catalog) (t : TypeSpec) (decl : TypeDecl) : Prop where
  name : decl.name = t.name
  flavor : decl.flavor = t.flavor
  present : decl.present = true
  inherited : decl.inherited = t.inherited
  params : List.Forall₂ (ReadsParam c) t.params decl.params
  superclass : ReadsSuperclass c t decl.superclass
  interfaces : List.Forall₂ (ReadsSuper c t) t.interfaces decl.interfaces
  enclosing : Option.Rel c.Calls t.enclosing decl.enclosing
  records : List.Forall₂ (ReadsRecord c) t.records (c.attached (.type decl.id))
  members : ReadsMembers c t decl.id [] t.members (c.membersOf decl.id)

structure NameOnly (c : Catalog) (name : String) (decl : TypeDecl) : Prop where
  content : decl = .reserved decl.id name
  members : c.membersOf decl.id = []
  records : c.attached (.type decl.id) = []

structure ReadsType (c : Catalog) (t : TypeSpec) (decl : TypeDecl) : Prop where
  present : t.absent = false → ReadsPresent c t decl
  absent : t.absent = true → NameOnly c t.name decl

end Model

open Model

/-- A catalog holds what a model says, the root besides, and nothing else. -/
structure Catalog.Renders (c : Catalog) (m : Model) : Prop where
  types : ∃ listed, c.types = rootDecl :: listed ∧ List.Forall₂ (ReadsType c) m.types listed
  rootMembers : c.membersOf root = []
  rootRecords : c.attached (.type root) = []
  distinct : c.names.Nodup
  lookup : ∀ name id, c.lookup name = some id ↔ c.names[id.index]? = some name
  typeIds : ∀ id decl, c.type? id = some decl → decl.id = id
  memberIds : c.Numbered
  listed : ∀ id, c.memberIds id = (c.membersOf id).map (·.id)
  housed : ∀ member ∈ c.members, ∃ decl ∈ c.types, member.declaring = decl.id
  placed : ∀ entry ∈ c.records, c.Issued entry.1

namespace Model

variable {c : Catalog} {t : TypeSpec} {on : TypeId}

theorem reads_bridge {earlier : List MemberDecl} {name : String} {id : MemberId}
    (found : bridgeTarget t (earlier.map .ofDecl) name = .ok id) : ReadsBridge earlier name id := by
  unfold bridgeTarget at found
  rw [List.find?_map] at found
  split at found
  · rename_i added first
    cases found
    obtain ⟨original, there, rfl⟩ := Option.map_eq_some_iff.mp first
    exact ⟨original, there, rfl⟩
  · cases found

theorem reads_returns (aligned : c.Aligned) {said : Option String} {returns : Option ValueType}
    (read : said.mapM (ValueType.ofText c) = .ok returns) :
    (said = none → returns.getD .void = .void) ∧
      ∀ text, said = some text → ReadsReturn c text.toList (returns.getD .void) := by
  cases said with
  | none =>
    cases read
    exact ⟨fun _ => rfl, nofun⟩
  | some text =>
    obtain ⟨found, parsed, rfl⟩ := map_ok read
    refine ⟨nofun, ?_⟩
    rintro _ ⟨⟩
    exact reads_parse aligned parsed

theorem reads_member (aligned : c.Aligned) {earlier : List MemberDecl} {m : MemberSpec}
    {d : MemberDef} {decl : MemberDecl}
    (ordered : m.Ordered) (defined : memberDef c t (earlier.map .ofDecl) m = .ok d)
    (stores : Stores c on d decl) : ReadsMember c t on earlier m decl := by
  have defines := defines_of_memberDef defined
  have content := stores.content
  obtain ⟨read, onReturns, returns⟩ := defines.returns
  have reads := reads_returns aligned onReturns
  rw [← returns] at reads
  exact {
    name := by
      rw [content]
      exact defines.name
    declaring := by rw [content]; rfl
    visibility := by
      rw [content]
      exact defines.visibility
    params := by
      rw [content]
      exact mapM_forall₂ defines.params fun _ _ _ => reads_typeArg aligned
    noReturns := by
      rw [content]
      exact reads.1
    returns := by
      rw [content]
      exact reads.2
    default := by
      rw [content]
      exact mapM_rel defines.default fun v said w => reads_value aligned _ v w (ordered.default v said)
    bridgeOf := by
      rw [content]
      exact mapM_rel defines.bridgeOf fun _ _ _ => reads_bridge
    records := by
      rw [stores.records]
      exact reads_records aligned ordered.records defines.records
    paramRecords := by
      intro index
      rw [stores.paramRecords]
      exact reads_paramRecords aligned ordered.paramRecords defines.paramRecords index }

theorem reads_members (aligned : c.Aligned) {earlier decls : List MemberDecl} {specs : List MemberSpec}
    (ordered : ∀ m ∈ specs, m.Ordered) (declares : Declares c t on earlier specs decls) :
    ReadsMembers c t on earlier specs decls := by
  induction declares with
  | nil => exact .nil
  | cons defined stores _ ih =>
    have said := ordered _ (List.mem_cons_self ..)
    apply ReadsMembers.cons (reads_member aligned said defined stores)
    exact ih fun m there => ordered m (List.mem_cons_of_mem _ there)

theorem reads_superclass (aligned : c.Aligned) {d : TypeDef}
    (root : c.Calls Catalog.rootName Catalog.root)
    (flavor : d.flavor = t.flavor) (said : t.superclass.mapM (superRef c t) = .ok d.superclass) :
    ReadsSuperclass c t (Catalog.superclassFor d) := by
  have reads : ReadsSuper c t (t.superclass.getD ⟨Catalog.rootName, []⟩)
      (d.superclass.getD ⟨Catalog.root, []⟩) := by
    revert said
    cases t.superclass with
    | none =>
      intro said
      rw [← Except.ok.inj said]
      exact ⟨root, .nil⟩
    | some s =>
      intro said
      obtain ⟨r, found, same⟩ := map_ok said
      rw [← same]
      exact reads_superRef aligned found
  unfold Catalog.superclassFor
  rw [flavor]
  cases kind : t.flavor with
  | classType => exact .some (.inl kind) reads
  | enumeration => exact .some (.inr kind) reads
  | interface => exact .none (.inl kind)
  | recordKind => exact .none (.inr kind)

theorem reads_present (aligned : c.Aligned) {d : TypeDef}
    (root : c.Calls Catalog.rootName Catalog.root)
    (ordered : t.Ordered) (defined : typeDef c t = .ok d)
    (records : c.attached (.type on) = d.records)
    (declares : Declares c t on [] t.members (c.membersOf on)) :
    ReadsPresent c t (d.declared on) := by
  obtain ⟨params, onParams, defined⟩ := bind_ok defined
  obtain ⟨superclass, onSuperclass, defined⟩ := bind_ok defined
  obtain ⟨interfaces, onInterfaces, defined⟩ := bind_ok defined
  obtain ⟨enclosing, onEnclosing, defined⟩ := bind_ok defined
  obtain ⟨own, onRecords, defined⟩ := bind_ok defined
  cases defined
  exact {
    name := rfl
    flavor := rfl
    present := rfl
    inherited := rfl
    params := mapM_forall₂ onParams fun _ _ _ => reads_typeParam aligned
    superclass := reads_superclass aligned root rfl onSuperclass
    interfaces := mapM_forall₂ onInterfaces fun _ _ _ => reads_superRef aligned
    enclosing := mapM_rel onEnclosing fun _ _ _ => calls_of_resolve aligned
    records := by
      show List.Forall₂ _ _ (c.attached (.type on))
      rw [records]
      exact reads_records aligned ordered.records onRecords
    members := reads_members aligned ordered.members declares }

theorem reads_type (aligned : c.Aligned) {id : TypeId}
    (root : c.Calls Catalog.rootName Catalog.root) (ordered : t.Ordered)
    (installed : Installed c id t) : ∃ decl, c.type? id = some decl ∧ ReadsType c t decl := by
  cases installed with
  | absent absent known members records =>
    refine ⟨_, known, ?_, fun _ => ⟨rfl, members, records⟩⟩
    rw [absent]
    exact nofun
  | present present defined known records declares =>
    refine ⟨_, known, fun _ => reads_present aligned root ordered defined records declares, ?_⟩
    rw [present]
    exact nofun

section

variable {m : Model} (loaded : Loaded m c)
include loaded

theorem Loaded.calls_root : c.Calls Catalog.rootName Catalog.root := by
  unfold Catalog.Calls
  rw [loaded.names]
  rfl

theorem Loaded.types_eq :
    ∃ listed, c.types = Catalog.rootDecl :: listed ∧ m.types.length = listed.length := by
  have first := loaded.root
  have lengths := congrArg List.length loaded.names
  rw [Catalog.length_names] at lengths
  unfold Catalog.type? at first
  cases types : c.types with
  | nil =>
    rw [types] at first
    cases first
  | cons decl listed =>
    rw [types] at first lengths
    cases first
    refine ⟨listed, rfl, ?_⟩
    rw [List.length_cons, List.length_cons, List.length_map] at lengths
    omega

theorem Loaded.reads_types (ordered : m.Ordered) :
    ∃ listed, c.types = Catalog.rootDecl :: listed ∧ List.Forall₂ (ReadsType c) m.types listed := by
  obtain ⟨listed, types, count⟩ := loaded.types_eq
  refine ⟨listed, types, List.forall₂_iff_get.mpr ⟨count, ?_⟩⟩
  intro i inSpecs inTypes
  have said : m.types[i]? = some (m.types.get ⟨i, inSpecs⟩) := List.getElem?_eq_getElem inSpecs
  obtain ⟨decl, found, reads⟩ :=
    reads_type loaded.sound.aligned loaded.calls_root (ordered _ (List.get_mem ..))
      (loaded.installed i _ said)
  have here : listed[i]? = some decl := by
    rw [← found, Catalog.type?, types]
    rfl
  obtain ⟨_, rfl⟩ := List.getElem?_eq_some_iff.mp here
  exact reads

end

theorem exists_declaring (sound : c.Sound) {member : MemberDecl} (there : member ∈ c.members) :
    ∃ decl ∈ c.types, member.declaring = decl.id := by
  have issued := sound.aligned.housed member there
  have found : c.type? member.declaring = some c.types[member.declaring.index] :=
    List.getElem?_eq_getElem issued
  exact ⟨_, List.getElem_mem issued, (sound.aligned.typeNumbered _ _ found).symm⟩

/-- Loading keeps all that a model says: translated back to names, the catalog is what was written. -/
theorem renders_of_load (m : Model) (c : Catalog) (ordered : m.Ordered) (load : m.load = .ok c) :
    c.Renders m := by
  have loaded := loaded_of_load load
  exact {
    types := loaded.reads_types ordered
    rootMembers := loaded.rootMembers
    rootRecords := loaded.rootRecords
    distinct := loaded.sound.distinct
    lookup := fun _ _ => loaded.sound.aligned.lookup_eq_some_iff loaded.sound.distinct
    typeIds := loaded.sound.aligned.typeNumbered
    memberIds := loaded.sound.numbered
    listed := loaded.sound.aligned.memberIds
    housed := fun _ => exists_declaring loaded.sound
    placed := loaded.sound.placed }

def boxes : Model where
  types := [
    { name := "Box", params := [⟨"T", some "Mark"⟩],
      members := [
        { name := "put", params := ["T"], returns := some "record:Mark []",
          records := [⟨"Mark", [("in", .record ⟨"Mark", []⟩), ("of", .type "Crate")]⟩],
          paramRecords := [(0, [⟨"Mark", []⟩])] }] },
    { name := "T", flavor := .interface, superclass := some ⟨"Box", []⟩ },
    { name := "Crate", superclass := some ⟨"Box", ["T"]⟩, enclosing := some "Box",
      records := [⟨"Mark", [("all", .array [.int 1, .enum "T" "ONE"])]⟩],
      members := [
        { name := "put", params := ["T"], visibility := .owner },
        { name := "put", params := ["Mark"], bridgeOf := some "put" }] },
    { name := "Mark", flavor := .recordKind, inherited := true,
      members := [{ name := "level", returns := some " int ", default := some (.int 1) }] },
    { name := "Gone", superclass := some ⟨"Box", []⟩, absent := true, members := [{ name := "lost" }] }]

def boxesCatalog : Catalog := .ofDecls
  [Catalog.rootDecl,
    ⟨⟨1⟩, "Box", .classType, [⟨"T", some ⟨4⟩⟩], some ⟨⟨0⟩, []⟩, [], none, false, true⟩,
    ⟨⟨2⟩, "T", .interface, [], none, [], none, false, true⟩,
    ⟨⟨3⟩, "Crate", .classType, [], some ⟨⟨1⟩, [.concrete ⟨2⟩]⟩, [], some ⟨1⟩, false, true⟩,
    ⟨⟨4⟩, "Mark", .recordKind, [], none, [], none, true, true⟩,
    .reserved ⟨5⟩ "Gone"]
  [⟨⟨0⟩, "put", ⟨1⟩, .everyone, [.var "T"], .array (.record ⟨4⟩), none, none⟩,
    ⟨⟨1⟩, "put", ⟨3⟩, .owner, [.concrete ⟨2⟩], .void, none, none⟩,
    ⟨⟨2⟩, "put", ⟨3⟩, .everyone, [.concrete ⟨4⟩], .void, none, some ⟨1⟩⟩,
    ⟨⟨3⟩, "level", ⟨4⟩, .everyone, [], .int, some (.int 1), none⟩]
  [(.member ⟨0⟩, ⟨⟨4⟩, [("in", .record ⟨⟨4⟩, []⟩), ("of", .type ⟨3⟩)]⟩),
    (.parameter ⟨0⟩ 0, ⟨⟨4⟩, []⟩),
    (.type ⟨3⟩, ⟨⟨4⟩, [("all", .array [.int 1, .enum ⟨2⟩ "ONE"])]⟩)]

theorem rendered_boxes :
    boxes.Ordered ∧ boxes.load = .ok boxesCatalog ∧ boxesCatalog.Renders boxes := by
  have bare : RecordSpec.Ordered ⟨"Mark", []⟩ := ⟨.nil, trivial⟩
  have two : RecordSpec.Ordered ⟨"Mark", [("in", .record ⟨"Mark", []⟩), ("of", .type "Crate")]⟩ :=
    ⟨by decide, bare, trivial, trivial⟩
  have nested : RecordSpec.Ordered ⟨"Mark", [("all", .array [.int 1, .enum "T" "ONE"])]⟩ :=
    ⟨List.pairwise_singleton .., ⟨trivial, trivial, trivial⟩, trivial⟩
  have ordered : boxes.Ordered := by
    simp [boxes, Model.Ordered, TypeSpec.ordered_iff, MemberSpec.ordered_iff, ValueSpec.Ordered, bare,
      two, nested]
  have load : boxes.load = .ok boxesCatalog := by with_unfolding_all rfl
  exact ⟨ordered, load, renders_of_load boxes boxesCatalog ordered load⟩

end Model

end Lineage
