import Lineage.Proofs.Model.Names
import Lineage.Proofs.Pairing.Queries

namespace Lineage

namespace Element

theorem among_append (e : Element) (first rest : List (Element × Record)) :
    e.among (first ++ rest) = e.among first ++ e.among rest := List.filterMap_append

theorem among_eq_nil {e : Element} {rs : List (Element × Record)}
    (nowhere : ∀ entry ∈ rs, entry.1 ≠ e) : e.among rs = [] := by
  unfold among
  rw [List.filterMap_eq_nil_iff]
  intro entry there
  exact if_neg (nowhere entry there)

theorem among_own (e : Element) (rs : List Record) : e.among (rs.map (e, ·)) = rs := by
  induction rs with
  | nil => rfl
  | cons r rest ih =>
    unfold among at ih ⊢
    rw [List.map_cons, List.filterMap_cons]
    simp only [if_true, ih]

end Element

namespace Catalog

variable {c d : Catalog} {P Q : TypeId → Prop}

def Issued (c : Catalog) : Element → Prop
  | .type id => id.index < c.types.length
  | .member id | .parameter id _ => id.index < c.members.length

/-- What holds of a catalog at any time while it is filled: it came about by steps that put records
    only on what there is. -/
structure Sound (c : Catalog) : Prop where
  built : c.Built
  placed : ∀ entry ∈ c.records, c.Issued entry.1

theorem Sound.aligned (sound : c.Sound) : c.Aligned := sound.built.aligned

theorem Sound.distinct (sound : c.Sound) : c.names.Nodup := sound.built.distinct

theorem Sound.numbered (sound : c.Sound) : c.Numbered := sound.aligned.numbered

def Kept (P : TypeId → Prop) (c : Catalog) : Element → Prop
  | .type id => ¬P id
  | .member id | .parameter id _ => id.index < c.members.length

/-- How a catalog changes while some types are filled: nothing changes but these types and what they
    declare, and nothing is taken away. -/
structure Fills (P : TypeId → Prop) (c d : Catalog) : Prop where
  names : d.names = c.names
  byName : d.byName = c.byName
  type : ∀ id, ¬P id → d.type? id = c.type? id
  membersOf : ∀ id, ¬P id → d.membersOf id = c.membersOf id
  attached : ∀ e, Kept P c e → d.attached e = c.attached e
  members : c.members.length ≤ d.members.length

namespace Fills

theorem refl (P : TypeId → Prop) (c : Catalog) : Fills P c c :=
  ⟨rfl, rfl, fun _ _ => rfl, fun _ _ => rfl, fun _ _ => rfl, Nat.le_refl _⟩

theorem mono (fills : Fills P c d) (more : ∀ id, P id → Q id) : Fills Q c d where
  names := fills.names
  byName := fills.byName
  type id other := fills.type id (mt (more id) other)
  membersOf id other := fills.membersOf id (mt (more id) other)
  attached e kept := by
    apply fills.attached
    cases e with
    | type id => exact mt (more id) kept
    | member id | parameter id index => exact kept
  members := fills.members

theorem trans {after : Catalog} (first : Fills P c d) (second : Fills P d after) : Fills P c after where
  names := second.names.trans first.names
  byName := second.byName.trans first.byName
  type id other := (second.type id other).trans (first.type id other)
  membersOf id other := (second.membersOf id other).trans (first.membersOf id other)
  attached e kept := by
    have still : Kept P d e := by
      cases e with
      | type id => exact kept
      | member id | parameter id index => exact Nat.lt_of_lt_of_le kept first.members
    exact (second.attached e still).trans (first.attached e kept)
  members := Nat.le_trans first.members second.members

theorem lookup (fills : Fills P c d) : d.lookup = c.lookup := lookup_congr fills.byName

end Fills

theorem types_length (same : d.names = c.names) : d.types.length = c.types.length := by
  rw [← length_names, ← length_names, same]

theorem attached_attachAll (c : Catalog) (rs : List (Element × Record)) (e : Element) :
    (c.attachAll rs).attached e = c.attached e ++ e.among rs := e.among_append _ _

theorem Sound.attached_eq_nil {on : Element} (sound : c.Sound) (new : ¬c.Issued on) :
    c.attached on = [] :=
  Element.among_eq_nil fun entry there same => new (same ▸ sound.placed entry there)

theorem fills_attachAll {rs : List (Element × Record)} (elsewhere : ∀ entry ∈ rs, ¬Kept P c entry.1) :
    Fills P c (c.attachAll rs) where
  names := rfl
  byName := rfl
  type _ _ := rfl
  membersOf _ _ := rfl
  attached e kept := by
    have none : e.among rs = [] :=
      Element.among_eq_nil fun entry there same => elsewhere entry there (same ▸ kept)
    rw [attached_attachAll, none, List.append_nil]
  members := Nat.le_refl _

end Catalog

def MemberDef.recordsAt (d : MemberDef) (index : Nat) : List Record :=
  (d.paramRecords.filter (·.1 = index)).map (·.2)

namespace Catalog

variable {c : Catalog} {id on : TypeId}

def withType (c : Catalog) (id : TypeId) (d : TypeDef) : Catalog :=
  { c with types := c.types.set id.index (d.declared id) }.attachAll (d.records.map (.type id, ·))

theorem define_known {d : TypeDef} (known : c.lookup d.name = some id) :
    c.define d = (id, c.withType id d) := by
  have here : c.lookup (d.declared root).name = some id := known
  unfold define insert
  rw [here]
  rfl

theorem attached_withType (c : Catalog) (id : TypeId) (d : TypeDef) :
    (c.withType id d).attached (.type id) = c.attached (.type id) ++ d.records := by
  unfold withType
  rw [attached_attachAll, Element.among_own]
  rfl

theorem issued_withType {d : TypeDef} {e : Element} : (c.withType id d).Issued e ↔ c.Issued e := by
  have count : (c.withType id d).types.length = c.types.length := List.length_set
  cases e with
  | type other =>
    unfold Issued
    rw [count]
  | member other | parameter other index => exact Iff.rfl

section

variable {d : TypeDef} (aligned : c.Aligned) (known : c.lookup d.name = some id)
include aligned known

theorem names_withType : (c.withType id d).names = c.names := by
  have stored : c.Stored d.name id { c with types := c.types.set id.index (d.declared id) } := by
    rw [List.set_eq_modify]
    exact .known _ known fun _ _ _ => ⟨rfl, rfl⟩
  rw [show (c.withType id d).names = _ from stored.names aligned, known, if_pos Option.isSome_some]

theorem type?_withType : (c.withType id d).type? id = some (d.declared id) :=
  List.getElem?_set_self (aligned.issued_of_lookup known)

theorem fills_withType : Fills (· = id) c (c.withType id d) where
  names := names_withType aligned known
  byName := rfl
  type other different := by
    apply List.getElem?_set_ne
    intro same
    exact different (TypeId.eq_of_index same.symm)
  membersOf _ _ := rfl
  attached e kept := by
    have placed : ∀ entry ∈ d.records.map (Element.type id, ·), ¬Kept (· = id) c entry.1 := by
      intro entry there
      obtain ⟨r, _, rfl⟩ := List.mem_map.mp there
      exact fun kept => kept rfl
    exact (fills_attachAll placed).attached e kept
  members := Nat.le_refl _

omit aligned in
theorem Sound.withType (sound : c.Sound) : (c.withType id d).Sound where
  built := by
    have defined := sound.built.define d
    rw [define_known known] at defined
    exact defined
  placed entry there := by
    rw [issued_withType]
    rcases List.mem_append.mp there with before | new
    · exact sound.placed entry before
    · obtain ⟨r, _, rfl⟩ := List.mem_map.mp new
      exact sound.aligned.issued_of_lookup known

end

section

variable {d : MemberDef}

theorem attachments_kept {e : Element} (kept : Kept (· = on) c e) :
    ∀ entry ∈ d.attachments ⟨c.members.length⟩, entry.1 ≠ e := by
  intro entry there same
  subst same
  rcases List.mem_append.mp there with there | there
  · obtain ⟨r, _, rfl⟩ := List.mem_map.mp there
    exact Nat.lt_irrefl _ kept
  · obtain ⟨⟨index, r⟩, _, rfl⟩ := List.mem_map.mp there
    exact Nat.lt_irrefl _ kept

theorem attached_withMember (c : Catalog) (on : TypeId) (d : MemberDef) (e : Element) :
    (c.withMember on d).attached e = c.attached e ++ e.among (d.attachments ⟨c.members.length⟩) :=
  e.among_append _ _

theorem fills_withMember : Fills (· = on) c (c.withMember on d) where
  names := rfl
  byName := rfl
  type _ _ := rfl
  membersOf _ different := membersOf_withMember_ne different
  attached e kept := by
    rw [attached_withMember, Element.among_eq_nil (attachments_kept kept), List.append_nil]
  members := by
    show c.members.length ≤ (c.members ++ [_]).length
    rw [List.length_append]
    exact Nat.le_add_right _ _

theorem among_attachments_member (id : MemberId) :
    Element.among (.member id) (d.attachments id) = d.records := by
  unfold MemberDef.attachments
  rw [Element.among_append, Element.among_own, Element.among_eq_nil, List.append_nil]
  intro entry there same
  obtain ⟨⟨index, r⟩, _, rfl⟩ := List.mem_map.mp there
  cases same

theorem among_attachments_parameter (id : MemberId) (index : Nat) :
    Element.among (.parameter id index) (d.attachments id) = d.recordsAt index := by
  unfold MemberDef.attachments
  rw [Element.among_append, Element.among_eq_nil, List.nil_append]
  · unfold MemberDef.recordsAt
    induction d.paramRecords with
    | nil => rfl
    | cons entry rest ih =>
      obtain ⟨position, r⟩ := entry
      unfold Element.among at ih ⊢
      rw [List.map_cons, List.filterMap_cons, List.filter_cons, ih]
      by_cases here : position = index
      · simp [here]
      · simp [here]
  · intro entry there same
    obtain ⟨r, _, rfl⟩ := List.mem_map.mp there
    cases same

theorem Sound.withMember (sound : c.Sound) (issued : on.index < c.types.length) :
    (c.withMember on d).Sound where
  built := .addMember on d sound.built (sound.aligned.addMember_issued d issued)
  placed entry there := by
    have count : (c.withMember on d).members.length = c.members.length + 1 := List.length_append
    have last : c.members.length < (c.withMember on d).members.length := by omega
    rcases List.mem_append.mp there with before | new
    · have old := sound.placed entry before
      revert old
      cases entry.1 with
      | type other => exact fun old => old
      | member other | parameter other index =>
        intro old
        exact Nat.lt_trans old last
    · rcases List.mem_append.mp new with new | new
      · obtain ⟨r, _, rfl⟩ := List.mem_map.mp new
        exact last
      · obtain ⟨⟨index, r⟩, _, rfl⟩ := List.mem_map.mp new
        exact last

theorem Sound.attached_new (sound : c.Sound) (on : TypeId) (d : MemberDef) :
    (c.withMember on d).attached (.member ⟨c.members.length⟩) = d.records ∧
      ∀ index, (c.withMember on d).attached (.parameter ⟨c.members.length⟩ index) =
        d.recordsAt index := by
  constructor
  · rw [attached_withMember, among_attachments_member, sound.attached_eq_nil (Nat.lt_irrefl _)]
    rfl
  · intro index
    rw [attached_withMember, among_attachments_parameter, sound.attached_eq_nil (Nat.lt_irrefl _)]
    rfl

end

end Catalog

end Lineage
