import Lineage.Proofs.Attributes
import Lineage.Proofs.Pairing.Generics
import Lineage.Proofs.Pairing.Values
import Lineage.Proofs.Scanner.History

namespace Lineage.Pairing

variable {p : Pairing} {c d : Catalog} {r s : Record}

structure Accessor (p : Pairing) (a b : Lineage.Accessor) : Prop where
  member : p.member a.member b.member
  name : a.name = b.name
  type : p.Returns a.type b.type
  default : Option.Rel p.Val a.default b.default

structure Table (p : Pairing) (t u : AttributeTable) : Prop where
  kind : Option.Rel (fun k l => p.type k.1 l.1 ∧ k.2 = l.2) t.kind u.kind
  accessors : List.Forall₂ p.Accessor t.accessors u.accessors
  first : t.Aligned
  second : u.Aligned

theorem Returns.isVoid {x y : ValueType} (related : p.Returns x y) : (x != .void) = (y != .void) := by
  cases related <;> rfl

theorem Returns.isDeferred {x y : ValueType} (related : p.Returns x y) :
    x.isDeferred = y.isDeferred := by
  cases related with
  | array item => cases item <;> rfl
  | _ => rfl

theorem Member.isAttribute {x y : MemberDecl} (related : p.Member x y) :
    x.isAttribute = y.isAttribute := by
  have noParams : x.params.isEmpty = y.params.isEmpty := by
    have params := related.params
    generalize x.params = first at params ⊢
    generalize y.params = second at params ⊢
    cases params <;> rfl
  unfold MemberDecl.isAttribute
  rw [noParams, related.returns.isVoid]

theorem Member.accessor {x y : MemberDecl} (related : p.Member x y) :
    p.Accessor (.ofMember x) (.ofMember y) :=
  ⟨related.id, related.name, related.returns, related.default⟩

theorem insertByName_related {a b : Lineage.Accessor} {as bs : List Lineage.Accessor}
    (head : p.Accessor a b) (others : List.Forall₂ p.Accessor as bs) :
    List.Forall₂ p.Accessor (Lineage.Accessor.insertByName a as) (Lineage.Accessor.insertByName b bs) := by
  induction others with
  | nil => exact .cons head .nil
  | cons next rest ih =>
    unfold Lineage.Accessor.insertByName
    rw [head.name, next.name]
    split
    · exact .cons head (.cons next rest)
    · exact .cons next ih

theorem sortByName_related {as bs : List Lineage.Accessor} (related : List.Forall₂ p.Accessor as bs) :
    List.Forall₂ p.Accessor (Lineage.Accessor.sortByName as) (Lineage.Accessor.sortByName bs) := by
  unfold Lineage.Accessor.sortByName
  induction related with
  | nil => exact .nil
  | cons head _ ih => exact insertByName_related head ih

theorem Table.ofKind {k l : TypeId} {name : String} {as bs : List Lineage.Accessor}
    (same : p.type k l) (related : List.Forall₂ p.Accessor as bs) :
    p.Table (.ofKind k name as) (.ofKind l name bs) where
  kind := by
    unfold AttributeTable.ofKind
    cases related with
    | nil => exact .none
    | cons head rest => exact .some ⟨same, rfl⟩
  accessors := by
    rw [AttributeTable.accessors_ofKind, AttributeTable.accessors_ofKind]
    exact sortByName_related related
  first := AttributeTable.ofKind_aligned k name as
  second := AttributeTable.ofKind_aligned l name bs

namespace Fits

variable (fits : p.Fits c d)
include fits

/-- An attribute that has no value is missed in the same words. -/
theorem readAttribute {m n : MemberId} (related : p.record r s) (paired : p.member m n) :
    Agree (fun e f => p.error e f ∨ e = f) p.Val (c.readAttribute r m) (d.readAttribute s n) := by
  apply ((fits.memberDecl paired).imp fun _ _ => .inl).bind
  intro decl other _ _ member
  have found : Option.Rel p.Val ((r.value? decl.name).or decl.default)
      ((s.value? other.name).or other.default) := by
    rw [member.name]
    obtain ⟨first, second⟩ | ⟨v, w, first, second, alike⟩ :=
      rel_cases (value?_related related other.name)
    · rw [first, second]
      exact member.default
    · rw [first, second]
      exact .some alike
  obtain ⟨first, second⟩ | ⟨v, w, first, second, alike⟩ := rel_cases found
  · obtain ⟨unknown, unknownToo⟩ | ⟨_, _, known, knownToo, kind⟩ :=
      rel_cases (fits.type (record_kind related))
    · simp only [first, second, unknown, unknownToo]
      rw [member.name]
      exact .error (Or.inr rfl)
    · simp only [first, second, known, knownToo]
      rw [member.name, kind.name]
      exact .error (Or.inr rfl)
  · simp only [first, second]
    have loads : Agree p.error Eq
        (v.typeRefs.forM fun id => do let _ ← c.load id) (w.typeRefs.forM fun id => do let _ ← d.load id) :=
      Agree.forM (typeRefs_related alike) fun _ _ same =>
        (fits.load same).bind fun _ _ _ _ _ => .pure rfl
    exact (loads.imp fun _ _ => .inl).bind fun _ _ _ _ _ => .pure alike

theorem isReadable {a b : Lineage.Accessor} (related : p.record r s) (same : p.Accessor a b) :
    AttributeTable.isReadable c r a = AttributeTable.isReadable d s b := by
  have read := fits.readAttribute related same.member
  unfold AttributeTable.isReadable
  generalize c.readAttribute r a.member = first at read ⊢
  generalize d.readAttribute s b.member = second at read ⊢
  cases read <;> rfl

theorem compute {k l : TypeId} (same : p.type k l) (restricted : Bool) :
    Agree p.error p.Table (AttributeTable.compute c k restricted)
      (AttributeTable.compute d l restricted) := by
  apply (fits.typeName same).bind
  rintro name _ _ _ rfl
  apply (fits.declaredMembers same).bind
  intro members members' _ _ listed
  apply (Agree.mapM listed fun _ _ paired => fits.memberDecl paired).bind
  intro decls decls' _ _ known
  apply Agree.pure
  apply Table.ofKind same
  apply List.rel_map fun _ _ related => Member.accessor related
  apply List.rel_filter _ known
  intro x y related
  show (!restricted || x.isAttribute) = true ↔ (!restricted || y.isAttribute) = true
  rw [related.isAttribute]

theorem isValid {t u : AttributeTable} (table : p.Table t u) (related : p.record r s) :
    Agree (fun _ _ => True) Eq (t.isValid c r) (u.isValid d s) := by
  have expected : Agree (fun _ _ => True) Eq (t.expect r) (u.expect s) := by
    unfold AttributeTable.expect
    obtain ⟨first, second⟩ | ⟨⟨k, name⟩, ⟨l, name'⟩, first, second, same, names⟩ :=
      rel_cases table.kind
    · rw [first, second]
      exact .ok rfl
    · rw [first, second]
      apply Agree.ite (type_eq_iff (record_kind related) same)
      · intro _
        exact .ok rfl
      · intro _
        exact .error trivial
  apply expected.bind
  intro _ _ _ _ _
  apply Agree.pure
  have hazardous : List.Forall₂ p.Accessor t.hazardous u.hazardous := by
    rw [table.first.hazardous, table.second.hazardous]
    apply List.rel_filter _ table.accessors
    intro a b same
    show a.type.isDeferred = true ↔ b.type.isDeferred = true
    rw [same.type.isDeferred]
  rw [← Bool.not_inj_iff, List.not_all_eq_any_not, List.not_all_eq_any_not]
  apply any_eq_of_forall₂ hazardous
  intro a b same
  rw [fits.isReadable related same]

theorem isTopType {a b : TypeId} (strategy : Strategy) (paired : p.type a b) :
    Agree p.error Eq (c.isTopType a strategy) (d.isTopType b strategy) := by
  apply Agree.ite (type_eq_iff paired fits.root)
  · intro _
    exact .pure rfl
  · intro _
    apply (fits.superclass paired).bind
    intro above above' _ _ up
    have onTop : above.all (· = Catalog.root) = above'.all (· = Catalog.root) := by
      cases up with
      | none => rfl
      | some next =>
        simp only [Option.all_some]
        rw [decide_eq_decide]
        exact type_eq_iff next fits.root
    rw [onTop]
    apply Agree.ite Iff.rfl
    · intro _
      apply (fits.interfaces paired).bind
      intro ids ids' _ _ listed
      have empty : ids.isEmpty = ids'.isEmpty := by cases listed <;> rfl
      rw [empty]
      apply Agree.ite Iff.rfl
      · intro _
        apply (fits.enclosing paired).bind
        intro outer outer' _ _ around
        apply Agree.pure
        cases around <;> rfl
      · intro _
        exact .pure rfl
    · intro _
      exact .pure rfl

theorem isWithoutHierarchy {e f : Element} (strategy : Strategy) (paired : p.element e f) :
    Agree p.error Eq (c.isWithoutHierarchy strategy e) (d.isWithoutHierarchy strategy f) := by
  cases e with
  | type a =>
    cases f with
    | type b => exact fits.isTopType strategy paired
    | member n => cases paired
    | parameter n j => cases paired
  | member m =>
    cases f with
    | type b => cases paired
    | member n =>
      apply (fits.memberDecl paired).bind
      intro decl other _ _ related
      rw [related.isPrivate]
      apply Agree.ite Iff.rfl
      · intro _
        exact .pure rfl
      · intro _
        exact fits.isTopType strategy related.declaring
    | parameter n j => cases paired
  | parameter m i =>
    cases f with
    | type b => cases paired
    | member n => cases paired
    | parameter n j => exact .pure rfl

end Fits

theorem ofKind_related {records others : List Record} {k l : TypeId}
    (related : List.Forall₂ p.record records others) (same : p.type k l) :
    Option.Rel p.record (records.find? (·.kind = k)) (others.find? (·.kind = l)) := by
  induction related with
  | nil => exact .none
  | @cons r r' _ _ head _ ih =>
    rw [List.find?_cons, List.find?_cons]
    by_cases here : r.kind = k
    · have there := (type_eq_iff (record_kind head) same).mp here
      simp only [here, there, decide_true]
      exact .some head
    · have elsewhere := mt (type_eq_iff (record_kind head) same).mpr here
      simp only [here, elsewhere, decide_false]
      exact ih

theorem keepFresh_related {α β : Type} {R : α → β → Prop} {test : α → Except QueryError Bool}
    {test' : β → Except QueryError Bool} {as : List α} {bs : List β}
    (inputs : List.Forall₂ R as bs) (each : ∀ a b, R a b → Agree p.error Eq (test a) (test' b)) :
    Agree p.error (List.Forall₂ R) (Scanner.keepFresh test as) (Scanner.keepFresh test' bs) := by
  induction inputs with
  | nil => exact .pure .nil
  | cons head _ ih =>
    apply (each _ _ head).bind
    rintro passes _ _ _ rfl
    apply ih.bind
    intro others others' _ _ kept
    apply Agree.pure
    split
    · exact .cons head kept
    · exact kept

structure Scanners (p : Pairing) (s u : Scanner) : Prop where
  catalog : p.Fits s.catalog u.catalog
  settings : s.settings = u.settings

namespace Scanners

variable {s u : Scanner} (scanners : p.Scanners s u) {a b : TypeId} {m n : MemberId} {e f : Element}
include scanners

theorem isPlainType (paired : p.type a b) : Agree p.error Eq (s.isPlainType a) (u.isPlainType b) := by
  apply (scanners.catalog.typeName paired).bind
  rintro name _ _ _ rfl
  rw [scanners.settings]
  exact .pure rfl

theorem isIgnorable (paired : p.type a b) : Agree p.error Eq (s.isIgnorable a) (u.isIgnorable b) := by
  apply (scanners.catalog.typeName paired).bind
  rintro name _ _ _ rfl
  rw [scanners.settings]
  exact .pure rfl

theorem freshReadable {r r' : Record} (related : p.record r r') :
    s.freshReadable r = u.freshReadable r' := by
  have computed := scanners.catalog.compute (record_kind related) true
  unfold Scanner.freshReadable
  generalize AttributeTable.compute s.catalog r.kind true = first at computed ⊢
  generalize AttributeTable.compute u.catalog r'.kind true = second at computed ⊢
  cases computed with
  | error _ => rfl
  | @ok t t' table =>
    have checked := scanners.catalog.isValid table related
    simp only
    generalize t.isValid s.catalog r = first at checked ⊢
    generalize t'.isValid u.catalog r' = second at checked ⊢
    cases checked with
    | error _ => rfl
    | ok same => exact same

theorem freshSlot {r r' : Record} (related : p.record r r') :
    Agree p.error p.slot (s.freshSlot r) (u.freshSlot r') := by
  apply (scanners.isIgnorable (record_kind related)).bind
  rintro ignorable _ _ _ rfl
  rw [scanners.freshReadable related]
  apply Agree.ite Iff.rfl
  · intro _
    exact .pure .none
  · intro _
    apply Agree.pure
    split
    · exact .some related
    · exact .none

theorem freshSlots (paired : p.element e f) :
    Agree p.error (List.Forall₂ p.slot) (s.freshSlots e) (u.freshSlots f) := by
  apply (scanners.catalog.declaredRecords paired).bind
  intro records records' _ _ declared
  apply (Agree.mapM declared fun _ _ related => scanners.freshSlot related).bind
  intro slots slots' _ _ kept
  apply Agree.pure
  rw [any_eq_of_forall₂ kept fun _ _ same => isSome_eq_of_rel same]
  split
  · exact kept
  · exact .nil

theorem freshOfKind {k l : TypeId} (paired : p.element e f) (same : p.type k l) :
    Agree p.error (Option.Rel p.record) (s.freshOfKind e k) (u.freshOfKind f l) := by
  apply (scanners.freshSlots paired).bind
  intro slots slots' _ _ kept
  exact .pure (ofKind_related (List.rel_filterMap (fun _ _ slot => slot) kept) same)

theorem freshQualifies (onInterface : Bool) (paired : p.member m n) :
    Agree p.error Eq (s.freshQualifies onInterface m) (u.freshQualifies onInterface n) := by
  apply (scanners.catalog.memberDecl paired).bind
  intro decl other _ _ related
  rw [related.isPrivate]
  apply Agree.ite Iff.rfl
  · intro _
    exact .pure rfl
  · intro _
    apply (scanners.isPlainType related.declaring).bind
    rintro plain _ _ _ rfl
    apply Agree.ite Iff.rfl
    · intro _
      exact .pure rfl
    · intro _
      have itself : p.element (.member m) (.member n) := paired
      apply (scanners.freshSlots itself).bind
      intro slots slots' _ _ kept
      apply Agree.pure
      cases kept <;> rfl

theorem freshQualified (paired : p.type a b) :
    Agree p.error (List.Forall₂ p.member) (s.freshQualified a) (u.freshQualified b) := by
  apply (scanners.catalog.typeDecl paired).bind
  intro decl other _ _ related
  have interface : decl.isInterface = other.isInterface := by
    unfold TypeDecl.isInterface
    rw [related.flavor]
  rw [interface]
  have offered := Agree.ite (p := other.isInterface = true) Iff.rfl
    (fun _ => scanners.catalog.publicMembers paired)
    (fun _ => scanners.catalog.declaredMembers paired)
  apply offered.bind
  intro members members' _ _ listed
  exact keepFresh_related listed fun _ _ member => scanners.freshQualifies _ member

theorem freshMembers (paired : p.type a b) :
    Agree p.error (List.Forall₂ p.member) (s.freshMembers a) (u.freshMembers b) := by
  apply Agree.ite (type_eq_iff paired scanners.catalog.root)
  · intro _
    exact .pure .nil
  · intro _
    apply (scanners.isPlainType paired).bind
    rintro plain _ _ _ rfl
    apply Agree.ite Iff.rfl
    · intro _
      exact .pure .nil
    · intro _
      exact scanners.freshQualified paired

theorem isPlain (paired : p.element e f) : Agree p.error Eq (s.isPlain e) (u.isPlain f) := by
  cases e with
  | type a =>
    cases f with
    | type b => exact scanners.isPlainType paired
    | member n => cases paired
    | parameter n j => cases paired
  | member m =>
    cases f with
    | type b => cases paired
    | member n =>
      apply (scanners.catalog.memberDecl paired).bind
      intro decl other _ _ related
      exact scanners.isPlainType related.declaring
    | parameter n j => cases paired
  | parameter m i =>
    cases f with
    | type b => cases paired
    | member n => cases paired
    | parameter n j => exact .pure rfl

theorem isBridge (paired : p.element e f) : Agree p.error Eq (s.isBridge e) (u.isBridge f) := by
  cases e with
  | type a =>
    cases f with
    | type b => exact .pure rfl
    | member n => cases paired
    | parameter n j => cases paired
  | member m =>
    cases f with
    | type b => cases paired
    | member n =>
      apply (scanners.catalog.memberDecl paired).bind
      intro decl other _ _ related
      apply Agree.pure
      exact isSome_eq_of_rel related.bridgeOf
    | parameter n j => cases paired
  | parameter m i =>
    cases f with
    | type b => cases paired
    | member n => cases paired
    | parameter n j => exact .pure rfl

theorem freshKnownEmpty (strategy : Strategy) (paired : p.element e f) :
    Agree p.error Eq (s.freshKnownEmpty strategy e) (u.freshKnownEmpty strategy f) := by
  apply (scanners.isPlain paired).bind
  rintro plain _ _ _ rfl
  apply Agree.ite Iff.rfl
  · intro _
    exact .pure rfl
  · intro _
    have single : Agree p.error Eq
        (if strategy = .direct then pure true else s.catalog.isWithoutHierarchy strategy e)
        (if strategy = .direct then pure true else u.catalog.isWithoutHierarchy strategy f) :=
      .ite Iff.rfl (fun _ => .pure rfl) fun _ => scanners.catalog.isWithoutHierarchy strategy paired
    apply single.bind
    rintro alone _ _ _ rfl
    apply Agree.ite Iff.rfl
    · intro _
      apply (scanners.isBridge paired).bind
      rintro bridge _ _ _ rfl
      apply Agree.ite Iff.rfl
      · intro _
        exact .pure rfl
      · intro _
        apply (scanners.freshSlots paired).bind
        intro slots slots' _ _ kept
        apply Agree.pure
        cases kept <;> rfl
    · intro _
      exact .pure rfl

end Scanners

end Lineage.Pairing
