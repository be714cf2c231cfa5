import Lineage.Proofs.Pairing.Walks
import Lineage.Proofs.Scan.Deliveries

namespace Lineage

def failureOf {α : Type} : Except QueryError α → List QueryError
  | .ok _ => []
  | .error e => [e]

def Operation.failures : (op : Operation) → op.Answer → List QueryError
  | .scan _ _ _ _, answer => (Event.failures answer.2).map (·.2)
  | .knownEmpty _ _, answer => (Event.failures answer.2).map (·.2)
  | .declared _, answer => failureOf answer
  | .declaredCopy _, answer => failureOf answer
  | .declaredOfKind _ _, answer => failureOf answer
  | .baseMembers _, answer => failureOf answer
  | .attributes _, answer => failureOf answer
  | .clear, _ => []

def Scan.freshAnswer {σ ο : Type} (s : Scan σ ο) (strategy : Strategy) (source : Element) :
    Option ο × List Event :=
  let watched := s.watched strategy source
  (s.visitor.finish watched.answer watched.state, watched.seen)

namespace Scanner

def freshEmptiness (s : Scanner) (strategy : Strategy) (source : Element) :
    Option Bool × List Event :=
  match s.freshKnownEmpty strategy source with
  | .ok empty => (some empty, [])
  | .error e => (some false, [.failure source e])

def freshAnswer (s : Scanner) : (op : Operation) → op.Answer
  | .scan visitor rejects strategy source => (Scan.mk s visitor rejects).freshAnswer strategy source
  | .knownEmpty strategy source => s.freshEmptiness strategy source
  | .declared e | .declaredCopy e => s.freshSlots e
  | .declaredOfKind e kind => s.freshOfKind e kind
  | .baseMembers id => s.freshMembers id
  | .attributes kind => AttributeTable.compute s.catalog kind true
  | .clear => ()

theorem perform_eq_freshAnswer (s : Scanner) (op : Operation) {m : Memo} (faithful : m.Faithful s) :
    (s.perform op m).1 = s.freshAnswer op := by
  cases op with
  | scan visitor rejects strategy source =>
    obtain ⟨after, _, ran⟩ := (Scan.mk s visitor rejects).run_eq strategy source faithful
    show (Scan.run ⟨s, visitor, rejects⟩ strategy source m).seen.1 = _
    rw [ran]
    rfl
  | knownEmpty strategy source => exact (s.isKnownEmpty_seen strategy source faithful).1
  | declared e | declaredCopy e => exact ((s.declared_settles e).answered faithful).1
  | declaredOfKind e kind => exact ((s.declaredOfKind_settles e kind).answered faithful).1
  | baseMembers id => exact ((s.baseMembers_settles id).answered faithful).1
  | attributes kind => exact ((s.attributes_settles kind).answered faithful).1
  | clear => rfl

theorem performAll_eq_freshAnswers (s : Scanner) (ops : List Operation) :
    s.performAll ops .empty = ops.map fun op => ⟨op, s.freshAnswer op⟩ := by
  rw [s.performAll_of_faithful ops (.empty s)]
  apply List.map_congr_left
  intro op _
  rw [s.perform_eq_freshAnswer op (.empty s)]

end Scanner

namespace Pairing

/-- The same happens in scans of what stands for the same thing. -/
theorem Terrains.events_of_scans {p : Pairing} {σ ο : Type} {s u : Scan σ ο}
    (terrains : p.Terrains s.terrain u.terrain) (laps : s.visitor.laps = u.visitor.laps)
    (strategy : Strategy) {e f : Element} (paired : p.element e f) :
    List.Forall₂ p.event (s.terrain.events s.depth strategy e)
      (u.terrain.events u.depth strategy f) := by
  have settled : s.terrain.events s.depth strategy e = s.terrain.events u.depth strategy e := by
    rcases terrains.scanners.catalog.typeCount with same | ⟨acyclic, some, fewer⟩
    · have depth : s.depth = u.depth := by
        unfold Scan.depth
        rw [laps, show s.scanner.catalog.typeCount = u.scanner.catalog.typeCount from same]
      rw [depth]
    · have enough : s.scanner.catalog.typeCount ≤ u.depth :=
        Nat.le_trans fewer u.typeCount_le_depth
      unfold Terrain.events
      rw [s.terrain.course_settled acyclic s.typeCount_le_depth enough some]
  rw [settled]
  exact terrains.events u.depth strategy paired

/-- Nothing stands for anything but itself. -/
structure Literal (p : Pairing) : Prop where
  type : ∀ {a b}, p.type a b → a = b
  member : ∀ {m n}, p.member m n → m = n
  error : ∀ {e f}, p.error e f → e = f

def Asks (p : Pairing) : Operation → Prop
  | .scan _ _ _ source | .knownEmpty _ source => p.element source source
  | .declared e | .declaredCopy e => p.element e e
  | .declaredOfKind e kind => p.element e e ∧ p.type kind kind
  | .baseMembers id | .attributes id => p.type id id
  | .clear => True

theorem failures_related {p : Pairing} {events : List Event}
    (happened : List.Forall₂ p.event events events) :
    ∀ e ∈ (Event.failures events).map (·.2), p.error e e := by
  intro e reported
  obtain ⟨⟨on, _⟩, known, rfl⟩ := List.mem_map.mp reported
  obtain ⟨event, seen, shape⟩ := List.mem_filterMap.mp known
  cases event with
  | enter index => cases shape
  | records index source slots => cases shape
  | failure on e =>
    cases shape
    exact (List.forall₂_same.mp happened _ seen).2

namespace Literal

variable {p : Pairing} (literal : p.Literal)
include literal

theorem val {v w : Value} (alike : p.Val v w) : v = w := by
  apply alike.induct (M := Eq)
  case bool | int | float | string => exact fun _ => rfl
  case type =>
    rintro a b same
    rw [literal.type same]
  case enum =>
    rintro a b constant same
    rw [literal.type same]
  case record =>
    intro k l vs ws same parts
    have equal : vs = ws := eq_of_forall₂ parts fun _ _ entry => Prod.ext entry.1 entry.2
    rw [literal.type same, equal]
  case array =>
    intro vs ws parts
    rw [eq_of_forall₂ parts fun _ _ same => same]

theorem record {r s : Record} (related : p.record r s) : r = s := by
  injection literal.val related

theorem slot {x y : Slot} (related : p.slot x y) : x = y :=
  eq_of_rel related fun _ _ => literal.record

theorem element {e f : Element} (related : p.element e f) : e = f := by
  cases e with
  | type a =>
    cases f with
    | type b => rw [literal.type related]
    | member n => cases related
    | parameter n j => cases related
  | member m =>
    cases f with
    | type b => cases related
    | member n => rw [literal.member related]
    | parameter n j => cases related
  | parameter m i =>
    cases f with
    | type b => cases related
    | member n => cases related
    | parameter n j => rw [literal.member related.1, related.2.1]

theorem event {x y : Event} (related : p.event x y) : x = y := by
  cases x with
  | enter i =>
    cases y with
    | enter j => rw [show i = j from related]
    | records j f others => cases related
    | failure f y => cases related
  | records i e slots =>
    cases y with
    | enter j => cases related
    | records j f others =>
      obtain ⟨rfl, on, slots⟩ := related
      rw [literal.element on, eq_of_forall₂ slots fun _ _ => literal.slot]
    | failure f y => cases related
  | failure e x =>
    cases y with
    | enter j => cases related
    | records j f others => cases related
    | failure f y => rw [literal.element related.1, literal.error related.2]

theorem returns {x y : ValueType} (related : p.Returns x y) : x = y := by
  induction related with
  | enum same | record same => rw [literal.type same]
  | array _ ih => rw [ih]
  | _ => rfl

theorem accessor {a b : Lineage.Accessor} (related : p.Accessor a b) : a = b := by
  obtain ⟨member, name, returns, default⟩ := a
  obtain ⟨member', name', returns', default'⟩ := b
  have sameMember := literal.member related.member
  have sameType := literal.returns related.type
  have sameDefault := eq_of_rel related.default fun _ _ => literal.val
  have sameName := related.name
  simp only at sameMember sameType sameDefault sameName
  rw [sameMember, sameType, sameDefault, sameName]

theorem table {t u : AttributeTable} (related : p.Table t u) : t = u := by
  have sameKind := eq_of_rel related.kind fun _ _ same => Prod.ext (literal.type same.1) same.2
  have sameAccessors := eq_of_forall₂ related.accessors fun _ _ => literal.accessor
  calc t
    _ = .ofAccessors t.kind t.accessors := related.first.eq_ofAccessors
    _ = .ofAccessors u.kind u.accessors := by rw [sameKind, sameAccessors]
    _ = u := related.second.eq_ofAccessors.symm

theorem agree {α : Type} {R : α → α → Prop} {x y : Except QueryError α} (agree : Agree p.error R x y)
    (same : ∀ a b, R a b → a = b) : x = y ∧ ∀ e ∈ failureOf x, p.error e e := by
  cases agree with
  | ok related => exact ⟨by rw [same _ _ related], nofun⟩
  | error related =>
    obtain rfl := literal.error related
    exact ⟨rfl, fun e known => List.mem_singleton.mp known ▸ related⟩

theorem scan {σ ο : Type} {s u : Scanner} (scanners : p.Scanners s u) (visitor : Visitor σ ο)
    (rejects : TypeId → Bool) (strategy : Strategy) {source : Element}
    (asked : p.element source source) :
    (Scan.mk s visitor rejects).freshAnswer strategy source =
        (Scan.mk u visitor rejects).freshAnswer strategy source ∧
      ∀ e ∈ (Event.failures ((Scan.mk s visitor rejects).freshAnswer strategy source).2).map (·.2),
        p.error e e := by
  have terrains : p.Terrains (Scan.mk s visitor rejects).terrain (Scan.mk u visitor rejects).terrain :=
    ⟨scanners, fun same => congrArg rejects (literal.type same)⟩
  have happened := terrains.events_of_scans rfl strategy asked
  have same := eq_of_forall₂ happened fun _ _ => literal.event
  have watched : (Scan.mk s visitor rejects).watched strategy source =
      (Scan.mk u visitor rejects).watched strategy source :=
    congrArg (visitor.watch · visitor.start) same
  constructor
  · unfold Scan.freshAnswer
    rw [watched]
  · rw [← same] at happened
    have shown := visitor.watch_seen_prefix
      (Terrain.events ⟨s, rejects⟩ (Scan.mk s visitor rejects).depth strategy source) visitor.start
    apply failures_related
    rw [List.forall₂_same] at happened ⊢
    exact fun event seen => happened event (shown.subset seen)

theorem knownEmpty {s u : Scanner} (scanners : p.Scanners s u) (strategy : Strategy)
    {source : Element} (asked : p.element source source) :
    s.freshEmptiness strategy source = u.freshEmptiness strategy source ∧
      ∀ e ∈ (Event.failures (s.freshEmptiness strategy source).2).map (·.2), p.error e e := by
  obtain ⟨same, failed⟩ := literal.agree (scanners.freshKnownEmpty strategy asked) fun _ _ => id
  unfold Scanner.freshEmptiness
  rw [← same]
  refine ⟨rfl, ?_⟩
  cases found : s.freshKnownEmpty strategy source with
  | ok empty => exact nofun
  | error e =>
    rw [found] at failed
    exact failed

/-- Scanners whose catalogs say the same answer the same, and fail in no other way than the catalogs
    do. -/
theorem answer {s u : Scanner} (scanners : p.Scanners s u) (op : Operation) (asked : p.Asks op) :
    s.freshAnswer op = u.freshAnswer op ∧ ∀ e ∈ op.failures (s.freshAnswer op), p.error e e := by
  cases op with
  | scan visitor rejects strategy source => exact literal.scan scanners visitor rejects strategy asked
  | knownEmpty strategy source => exact literal.knownEmpty scanners strategy asked
  | declared e | declaredCopy e =>
    exact literal.agree (scanners.freshSlots asked) fun _ _ slots =>
      eq_of_forall₂ slots fun _ _ => literal.slot
  | declaredOfKind e kind =>
    exact literal.agree (scanners.freshOfKind asked.1 asked.2) fun _ _ found =>
      eq_of_rel found fun _ _ => literal.record
  | baseMembers id =>
    exact literal.agree (scanners.freshMembers asked) fun _ _ members =>
      eq_of_forall₂ members fun _ _ => literal.member
  | attributes kind =>
    exact literal.agree (scanners.catalog.compute asked true) fun _ _ => literal.table
  | clear => exact ⟨rfl, nofun⟩

end Literal

end Pairing

end Lineage
