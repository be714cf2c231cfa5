import Lineage.Proofs.Model.Filling

namespace Lineage.Model

open Catalog (Fills Kept Sound rootDecl)

variable {c after : Catalog} {P : TypeId → Prop} {t : TypeSpec} {id on : TypeId}

def Added.ofDecl (d : MemberDecl) : Added := ⟨d.name, d.id, d.isBridge⟩

structure Stores (c : Catalog) (on : TypeId) (d : MemberDef) (decl : MemberDecl) : Prop where
  content : decl = d.declared decl.id on
  records : c.attached (.member decl.id) = d.records
  paramRecords : ∀ index, c.attached (.parameter decl.id index) = d.recordsAt index

inductive Declares (c : Catalog) (t : TypeSpec) (on : TypeId) :
    List MemberDecl → List MemberSpec → List MemberDecl → Prop
  | nil {earlier : List MemberDecl} : Declares c t on earlier [] []
  | cons {earlier decls : List MemberDecl} {specs : List MemberSpec} {m : MemberSpec}
    {decl : MemberDecl} {d : MemberDef} :
    memberDef c t (earlier.map .ofDecl) m = .ok d → Stores c on d decl →
    Declares c t on (earlier ++ [decl]) specs decls → Declares c t on earlier (m :: specs) (decl :: decls)

inductive Installed (c : Catalog) (id : TypeId) (t : TypeSpec) : Prop
  | absent : t.absent = true → c.type? id = some (.reserved id t.name) → c.membersOf id = [] →
    c.attached (.type id) = [] → Installed c id t
  | present {d : TypeDef} : t.absent = false → typeDef c t = .ok d →
    c.type? id = some (d.declared id) → c.attached (.type id) = d.records →
    Declares c t id [] t.members (c.membersOf id) → Installed c id t

structure Blank (c : Catalog) (id : TypeId) (name : String) : Prop where
  known : c.lookup name = some id
  reserved : c.type? id = some (.reserved id name)
  membersOf : c.membersOf id = []
  attached : c.attached (.type id) = []

theorem Stores.kept {d : MemberDef} {decl : MemberDecl} (stores : Stores c on d decl)
    (issued : decl.id.index < c.members.length) (fills : Fills P c after) :
    Stores after on d decl where
  content := stores.content
  records := (fills.attached (.member decl.id) issued).trans stores.records
  paramRecords index := (fills.attached (.parameter decl.id index) issued).trans (stores.paramRecords index)

theorem Declares.kept {earlier decls : List MemberDecl} {specs : List MemberSpec}
    (declares : Declares c t on earlier specs decls)
    (issued : ∀ decl ∈ decls, decl.id.index < c.members.length) (fills : Fills P c after) :
    Declares after t on earlier specs decls := by
  induction declares with
  | nil => exact .nil
  | cons defined stores _ ih =>
    rw [← memberDef_congr fills.lookup] at defined
    apply Declares.cons defined
    · exact stores.kept (issued _ (List.mem_cons_self ..)) fills
    · exact ih fun decl there => issued decl (List.mem_cons_of_mem _ there)

theorem issued_of_membersOf (sound : c.Sound) {decl : MemberDecl} (there : decl ∈ c.membersOf on) :
    decl.id.index < c.members.length :=
  (List.getElem?_eq_some_iff.mp (sound.numbered.member? there)).1

theorem Blank.kept (blank : Blank c id t.name) (fills : Fills P c after) (other : ¬P id) :
    Blank after id t.name where
  known := fills.lookup ▸ blank.known
  reserved := (fills.type id other).trans blank.reserved
  membersOf := (fills.membersOf id other).trans blank.membersOf
  attached := (fills.attached (.type id) other).trans blank.attached

theorem Installed.kept (installed : Installed c id t) (sound : c.Sound) (fills : Fills P c after)
    (other : ¬P id) : Installed after id t := by
  have members := fills.membersOf id other
  have type := fills.type id other
  have attached := fills.attached (.type id) other
  cases installed with
  | absent absent known noMembers noRecords =>
    exact .absent absent (type.trans known) (members.trans noMembers) (attached.trans noRecords)
  | present present defined known records declares =>
    rw [← typeDef_congr fills.lookup] at defined
    apply Installed.present present defined (type.trans known) (attached.trans records)
    rw [members]
    exact declares.kept (fun _ there => issued_of_membersOf sound there) fills

structure Defines (c : Catalog) (t : TypeSpec) (earlier : List Added) (m : MemberSpec)
    (d : MemberDef) : Prop where
  name : d.name = m.name
  visibility : d.visibility = m.visibility
  params : m.params.mapM (typeArg c t) = .ok d.params
  returns : ∃ read, m.returns.mapM (ValueType.ofText c) = .ok read ∧ d.returns = read.getD .void
  default : m.default.mapM (value c (t.name ++ "#" ++ m.name)) = .ok d.default
  bridgeOf : m.bridgeOf.mapM (bridgeTarget t earlier) = .ok d.bridgeOf
  records : m.records.mapM (record c (t.name ++ "#" ++ m.name)) = .ok d.records
  paramRecords : paramRecords c (t.name ++ "#" ++ m.name) m.paramRecords = .ok d.paramRecords

theorem defines_of_memberDef {earlier : List Added} {m : MemberSpec} {d : MemberDef}
    (defined : memberDef c t earlier m = .ok d) : Defines c t earlier m d := by
  obtain ⟨_, params, defined⟩ := bind_ok defined
  obtain ⟨_, returns, defined⟩ := bind_ok defined
  obtain ⟨_, default, defined⟩ := bind_ok defined
  obtain ⟨_, bridgeOf, defined⟩ := bind_ok defined
  obtain ⟨_, records, defined⟩ := bind_ok defined
  obtain ⟨_, paramRecords, defined⟩ := bind_ok defined
  cases defined
  exact ⟨rfl, rfl, params, ⟨_, returns, rfl⟩, default, bridgeOf, records, paramRecords⟩

theorem name_of_typeDef {d : TypeDef} (defined : typeDef c t = .ok d) : d.name = t.name := by
  obtain ⟨_, _, defined⟩ := bind_ok defined
  obtain ⟨_, _, defined⟩ := bind_ok defined
  obtain ⟨_, _, defined⟩ := bind_ok defined
  obtain ⟨_, _, defined⟩ := bind_ok defined
  obtain ⟨_, _, defined⟩ := bind_ok defined
  cases defined
  rfl

structure Grown (t : TypeSpec) (on : TypeId) (earlier : List MemberDecl) (specs : List MemberSpec)
    (c after : Catalog) : Prop where
  sound : after.Sound
  fills : Fills (· = on) c after
  types : after.types = c.types
  attached : after.attached (.type on) = c.attached (.type on)
  declares : ∃ decls, after.membersOf on = c.membersOf on ++ decls ∧
    Declares after t on earlier specs decls

theorem addMembers_grown {earlier : List MemberDecl} {specs : List MemberSpec} (sound : c.Sound)
    (issued : on.index < c.types.length)
    (added : addMembers t on c (earlier.map .ofDecl) specs = .ok after) :
    Grown t on earlier specs c after := by
  induction specs generalizing c earlier with
  | nil =>
    cases added
    exact ⟨sound, .refl _ _, rfl, rfl, [], (List.append_nil _).symm, .nil⟩
  | cons m rest ih =>
    obtain ⟨d, defined, added⟩ := bind_ok added
    rw [sound.aligned.addMember_issued d issued] at added
    let decl : MemberDecl := d.declared ⟨c.members.length⟩ on
    have next : earlier.map Added.ofDecl ++ [⟨m.name, ⟨c.members.length⟩, d.bridgeOf.isSome⟩] =
        (earlier ++ [decl]).map Added.ofDecl := by
      rw [List.map_append, ← (defines_of_memberDef defined).name]
      rfl
    simp only [next] at added
    have grown := ih (sound.withMember issued) issued added
    have first : Fills (· = on) c (c.withMember on d) := Catalog.fills_withMember
    obtain ⟨decls, members, declares⟩ := grown.declares
    have own := sound.attached_new on d
    have last : c.members.length < (c.withMember on d).members.length := by
      rw [show (c.withMember on d).members.length = c.members.length + 1 from List.length_append]
      exact Nat.lt_succ_self _
    have stores : Stores (c.withMember on d) on d decl := ⟨rfl, own.1, own.2⟩
    refine ⟨grown.sound, first.trans grown.fills, grown.types, ?_, decl :: decls, ?_, ?_⟩
    · rw [grown.attached, Catalog.attached_withMember, Element.among_eq_nil, List.append_nil]
      intro entry there same
      rcases List.mem_append.mp there with there | there
      · obtain ⟨r, _, rfl⟩ := List.mem_map.mp there
        cases same
      · obtain ⟨⟨index, r⟩, _, rfl⟩ := List.mem_map.mp there
        cases same
    · rw [members, Catalog.membersOf_withMember, List.append_assoc]
      rfl
    · rw [← memberDef_congr (first.trans grown.fills).lookup] at defined
      exact .cons defined (stores.kept last grown.fills) declares

/-- One step of the loader puts one type in place and leaves everything else. -/
theorem addType_installed (sound : c.Sound) (blank : Blank c id t.name)
    (added : addType c t = .ok after) :
    after.Sound ∧ Fills (· = id) c after ∧ Installed after id t := by
  unfold addType at added
  by_cases absent : t.absent = true
  · rw [if_pos absent] at added
    cases added
    exact ⟨sound, .refl _ _, .absent absent blank.reserved blank.membersOf blank.attached⟩
  · rw [if_neg absent] at added
    obtain ⟨d, defined, added⟩ := bind_ok added
    have known : c.lookup d.name = some id := name_of_typeDef defined ▸ blank.known
    rw [Catalog.define_known known] at added
    have first : Fills (· = id) c (c.withType id d) := Catalog.fills_withType sound.aligned known
    have issued : id.index < (c.withType id d).types.length := by
      rw [Catalog.types_length first.names]
      exact sound.aligned.issued_of_lookup known
    have grown : Grown t id [] t.members (c.withType id d) after :=
      addMembers_grown (sound.withType known) issued added
    have fills := first.trans grown.fills
    obtain ⟨decls, members, declares⟩ := grown.declares
    rw [← typeDef_congr fills.lookup] at defined
    refine ⟨grown.sound, fills, .present (Bool.eq_false_iff.mpr absent) defined ?_ ?_ ?_⟩
    · unfold Catalog.type?
      rw [grown.types]
      exact Catalog.type?_withType sound.aligned known
    · rw [grown.attached, Catalog.attached_withType, blank.attached, List.nil_append]
    · have alone : after.membersOf id = decls := by
        rw [members]
        exact congrArg (· ++ decls) blank.membersOf
      rw [alone]
      exact declares

/-- Types that are still to be filled stay blank while another one is. -/
theorem blank_rest (sound : c.Sound) {rest : List TypeSpec} (once : ((t :: rest).map (·.name)).Nodup)
    (blank : ∀ u ∈ t :: rest, ∃ id, Blank c id u.name) (here : Blank c id t.name)
    (fills : Fills (· = id) c after) : ∀ u ∈ rest, ∃ other, Blank after other u.name := by
  intro u there
  obtain ⟨other, still⟩ := blank u (List.mem_cons_of_mem _ there)
  refine ⟨other, still.kept fills ?_⟩
  rintro rfl
  have names := (sound.aligned.lookup_sound still.known).symm.trans
    (sound.aligned.lookup_sound here.known)
  exact (List.nodup_cons.mp once).1 (List.mem_map.mpr ⟨u, there, Option.some.inj names⟩)

theorem addTypes_installed {specs : List TypeSpec} (sound : c.Sound)
    (once : (specs.map (·.name)).Nodup) (blank : ∀ t ∈ specs, ∃ id, Blank c id t.name)
    (added : specs.foldlM addType c = .ok after) :
    after.Sound ∧ Fills (fun id => ∃ t ∈ specs, c.lookup t.name = some id) c after ∧
      ∀ t ∈ specs, ∃ id, c.lookup t.name = some id ∧ Installed after id t := by
  induction specs generalizing c with
  | nil =>
    cases added
    exact ⟨sound, .refl _ _, nofun⟩
  | cons t rest ih =>
    rw [List.foldlM_cons] at added
    obtain ⟨middle, first, later⟩ := bind_ok added
    obtain ⟨id, here⟩ := blank t (List.mem_cons_self ..)
    obtain ⟨soundNow, fills, installed⟩ := addType_installed sound here first
    obtain ⟨new, onceRest⟩ := List.nodup_cons.mp once
    have apart : ∀ u ∈ rest, c.lookup u.name ≠ some id := by
      intro u there same
      have names := (sound.aligned.lookup_sound same).symm.trans
        (sound.aligned.lookup_sound here.known)
      exact new (List.mem_map.mpr ⟨u, there, Option.some.inj names⟩)
    have blankRest := blank_rest sound once blank here fills
    obtain ⟨soundLater, fillsRest, installedRest⟩ := ih soundNow onceRest blankRest later
    rw [fills.lookup] at fillsRest installedRest
    refine ⟨soundLater, ?_, ?_⟩
    · apply Fills.trans (fills.mono _) (fillsRest.mono _)
      · rintro _ rfl
        exact ⟨t, List.mem_cons_self .., here.known⟩
      · rintro other ⟨u, there, known⟩
        exact ⟨u, List.mem_cons_of_mem _ there, known⟩
    · intro u there
      rcases List.mem_cons.mp there with rfl | there
      · have untouched : ¬∃ v ∈ rest, c.lookup v.name = some id :=
          fun ⟨v, listed, same⟩ => apart v listed same
        exact ⟨id, here.known, installed.kept soundNow fillsRest untouched⟩
      · exact installedRest u there

/-- What a catalog is that was loaded from a model: the root and the listed types, each as it is
    specified. -/
structure Loaded (m : Model) (c : Catalog) : Prop where
  sound : c.Sound
  names : c.names = Catalog.rootName :: m.types.map (·.name)
  root : c.type? Catalog.root = some rootDecl
  rootMembers : c.membersOf Catalog.root = []
  rootRecords : c.attached (.type Catalog.root) = []
  installed : ∀ i t, m.types[i]? = some t → Installed c ⟨i + 1⟩ t

section

variable {m : Model} {r : Catalog}

def reservedFor (m : Model) : Catalog := reserveAll .initial m.types

theorem membersOf_reservedFor (m : Model) (id : TypeId) : (reservedFor m).membersOf id = [] := by
  rw [Catalog.membersOf, reservedFor, members_reserveAll]
  rfl

theorem attached_reservedFor (m : Model) (e : Element) : (reservedFor m).attached e = [] := by
  rw [Catalog.attached, reservedFor, records_reserveAll]
  rfl

theorem sound_reservedFor (m : Model) : (reservedFor m).Sound where
  built := reserveAll_built .initial
  placed entry there := by
    rw [reservedFor, records_reserveAll] at there
    cases there

section

variable (once : (Catalog.rootName :: m.types.map (·.name)).Nodup)
include once

theorem types_reservedFor : (reservedFor m).types = rootDecl :: placeholders 1 m.types :=
  types_reserveAll .initial once

theorem names_reservedFor :
    (reservedFor m).names = Catalog.rootName :: m.types.map (·.name) := by
  rw [Catalog.names, types_reservedFor once, List.map_cons, map_name_placeholders]
  rfl

theorem type?_reservedFor (i : Nat) :
    (reservedFor m).type? ⟨i + 1⟩ = m.types[i]?.map fun t => .reserved ⟨i + 1⟩ t.name := by
  have reserved := getElem?_placeholders 1 m.types i
  rw [Nat.add_comm] at reserved
  rw [Catalog.type?, types_reservedFor once]
  exact reserved

theorem blank_reservedFor {i : Nat} (listed : m.types[i]? = some t) :
    Blank (reservedFor m) ⟨i + 1⟩ t.name where
  known := by
    have sound := sound_reservedFor m
    rw [sound.aligned.lookup_eq_some_iff sound.built.distinct, names_reservedFor once,
      List.getElem?_cons_succ, List.getElem?_map, listed]
    rfl
  reserved := by
    rw [type?_reservedFor once, listed]
    rfl
  membersOf := membersOf_reservedFor m _
  attached := attached_reservedFor m _

end

theorem load_eq_ok_iff : m.load = .ok c ↔
    (Catalog.rootName :: m.types.map (·.name)).Nodup ∧ m.types.foldlM addType (reservedFor m) = .ok c := by
  unfold load
  constructor
  · intro loaded
    obtain ⟨r, reserved, filled⟩ := bind_ok loaded
    obtain ⟨once, rfl⟩ := (reserve_eq_ok_iff m.types .initial).mp reserved
    exact ⟨once, filled⟩
  · intro ⟨once, filled⟩
    have reserved : reserve .initial m.types = .ok (reservedFor m) :=
      (reserve_eq_ok_iff m.types .initial).mpr ⟨once, rfl⟩
    rw [reserved]
    exact filled

theorem loaded_of_load (loaded : m.load = .ok c) : Loaded m c := by
  obtain ⟨once, filled⟩ := load_eq_ok_iff.mp loaded
  have blank : ∀ t ∈ m.types, ∃ id, Blank (reservedFor m) id t.name := by
    intro t there
    obtain ⟨i, listed⟩ := List.mem_iff_getElem?.mp there
    exact ⟨_, blank_reservedFor once listed⟩
  obtain ⟨rootNew, onceRest⟩ := List.nodup_cons.mp once
  obtain ⟨sound, fills, installed⟩ :=
    addTypes_installed (sound_reservedFor m) onceRest blank filled
  have untouched : ¬∃ t ∈ m.types, (reservedFor m).lookup t.name = some Catalog.root := by
    rintro ⟨t, there, same⟩
    have name := (sound_reservedFor m).aligned.lookup_sound same
    rw [names_reservedFor once] at name
    exact rootNew (List.mem_map.mpr ⟨t, there, (Option.some.inj name).symm⟩)
  exact {
    sound := sound
    names := fills.names.trans (names_reservedFor once)
    root := by
      rw [fills.type _ untouched, Catalog.type?, types_reservedFor once]
      rfl
    rootMembers := (fills.membersOf _ untouched).trans (membersOf_reservedFor m _)
    rootRecords :=
      (fills.attached (.type Catalog.root) untouched).trans (attached_reservedFor m _)
    installed := by
      intro i t listed
      obtain ⟨id, known, done⟩ := installed t (List.mem_of_getElem? listed)
      rw [(blank_reservedFor once listed).known] at known
      cases known
      exact done }

end

end Lineage.Model
