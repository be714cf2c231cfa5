import Lineage.Proofs.Catalog.Links
import Lineage.Proofs.Memo.Faithful

namespace Lineage

namespace Catalog

variable {c : Catalog} {id : TypeId}

theorem mem_recordsOf {e : Element} {r : Record} :
    r ∈ c.recordsOf e ↔ (e, r) ∈ c.records ∧ c.isPresent r.kind = true := by
  rw [recordsOf, List.mem_filter, List.mem_filterMap]
  refine and_congr_left fun _ => ⟨fun attached => ?_, fun attached => ⟨_, attached, if_pos rfl⟩⟩
  obtain ⟨⟨on, other⟩, known, taken⟩ := attached
  obtain ⟨rfl, same⟩ := Option.ite_none_right_eq_some.mp taken
  cases same
  exact known

theorem declaredRecords_of_loaded {e : Element} (loaded : c.loadElement e = .ok ()) :
    c.declaredRecords e = .ok (c.recordsOf e) := by
  simp only [declaredRecords, loaded, Bind.bind, Except.bind]
  rfl

theorem loadElement_type_of_present (present : c.isPresent id = true) :
    c.loadElement (.type id) = .ok () := by
  obtain ⟨decl, _, loaded⟩ := load_of_present present
  simp only [loadElement, loaded, Bind.bind, Except.bind]
  rfl

theorem loadElement_member_of_present {member : MemberId} {decl : MemberDecl}
    (found : c.memberDecl member = .ok decl) (present : c.isPresent decl.declaring = true) :
    c.loadElement (.member member) = .ok () := by
  obtain ⟨type, _, loaded⟩ := load_of_present present
  simp only [loadElement, loadMember, found, loaded, Bind.bind, Except.bind]
  rfl

theorem bridged_of_known {member : MemberId} {decl : MemberDecl}
    (known : c.memberDecl member = .ok decl) :
    c.bridged member = .ok (decl.bridgeOf.getD member) := by
  simp only [bridged, known, Bind.bind, Except.bind]
  rfl

end Catalog

namespace Scanner

variable {s : Scanner} {id : TypeId}

def ignores (s : Scanner) (kind : TypeId) : Bool :=
  (s.catalog.type? kind).any (s.settings.isIgnorableName ·.name)

def keeps (s : Scanner) (r : Record) : Bool := !s.ignores r.kind && s.freshReadable r

def slotsOf (s : Scanner) (e : Element) : List Slot :=
  let slots := (s.catalog.recordsOf e).map (Option.guard s.keeps)
  if slots.any Option.isSome then slots else []

theorem isPlainType_of_found {decl : TypeDecl} (found : s.catalog.type? id = some decl) :
    s.isPlainType id = .ok (s.settings.isPlainName decl.name) := by
  simp only [isPlainType, Catalog.typeName, Catalog.typeDecl, found, Bind.bind, Except.bind]
  rfl

theorem isIgnorable_of_present (present : s.catalog.isPresent id = true) :
    s.isIgnorable id = .ok (s.ignores id) := by
  obtain ⟨decl, found, _⟩ := Catalog.load_of_present present
  simp only [isIgnorable, ignores, Catalog.typeName, Catalog.typeDecl, found, Bind.bind,
    Except.bind]
  rfl

theorem freshSlot_of_present {r : Record} (present : s.catalog.isPresent r.kind = true) :
    s.freshSlot r = .ok (Option.guard s.keeps r) := by
  simp only [freshSlot, isIgnorable_of_present present, Bind.bind, Except.bind]
  unfold Option.guard keeps
  cases s.ignores r.kind with
  | true => rfl
  | false => cases s.freshReadable r <;> rfl

theorem freshSlots_of_loaded {e : Element} (loaded : s.catalog.loadElement e = .ok ()) :
    s.freshSlots e = .ok (s.slotsOf e) := by
  have each : ∀ r ∈ s.catalog.recordsOf e, s.freshSlot r = .ok (Option.guard s.keeps r) :=
    fun r member => freshSlot_of_present (Catalog.mem_recordsOf.mp member).2
  simp only [freshSlots, Catalog.declaredRecords_of_loaded loaded, Bind.bind, Except.bind,
    mapM_of_ok each]
  rfl

theorem member_of_freshSlots {member : MemberId} {slots : List Slot}
    (asked : s.freshSlots (.member member) = .ok slots) :
    ∃ decl, s.catalog.memberDecl member = .ok decl ∧ s.catalog.isPresent decl.declaring = true := by
  obtain ⟨_, declared, _⟩ := bind_ok asked
  obtain ⟨_, element, _⟩ := bind_ok declared
  obtain ⟨_, loaded, _⟩ := bind_ok element
  obtain ⟨decl, found, loaded⟩ := bind_ok loaded
  obtain ⟨_, type, _⟩ := bind_ok loaded
  exact ⟨decl, found, (Catalog.present_of_load type).2⟩

theorem freshSlots_of_present (present : s.catalog.isPresent id = true) :
    s.freshSlots (.type id) = .ok (s.slotsOf (.type id)) :=
  freshSlots_of_loaded (Catalog.loadElement_type_of_present present)

end Scanner

end Lineage
