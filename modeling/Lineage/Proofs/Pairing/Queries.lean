import Lineage.Proofs.Pairing.Basic
import Lineage.Proofs.Scan.Depth

namespace Lineage

def Element.among (e : Element) (rs : List (Element × Record)) : List Record :=
  rs.filterMap fun (on, r) => if on = e then some r else none

theorem Element.mem_among {e : Element} {rs : List (Element × Record)} {r : Record} :
    r ∈ e.among rs ↔ (e, r) ∈ rs := by
  unfold among
  rw [List.mem_filterMap]
  refine ⟨fun found => ?_, fun there => ⟨_, there, if_pos rfl⟩⟩
  obtain ⟨⟨on, other⟩, there, taken⟩ := found
  obtain ⟨rfl, same⟩ := Option.ite_none_right_eq_some.mp taken
  cases same
  exact there

namespace Catalog

def attached (c : Catalog) (e : Element) : List Record := e.among c.records

theorem recordsOf_eq_filter (c : Catalog) (e : Element) :
    c.recordsOf e = (c.attached e).filter (c.isPresent ·.kind) := rfl

end Catalog

namespace Pairing

/-- Two catalogs that say the same of everything that is paired, and fail alike where they say
    nothing. -/
structure Fits (p : Pairing) (c d : Catalog) : Prop where
  /-- A chain of links is followed as far on both sides, or to its end. -/
  typeCount : c.typeCount = d.typeCount ∨
    c.Acyclic ∧ 0 < c.typeCount ∧ c.typeCount ≤ d.typeCount
  root : p.type Catalog.root Catalog.root
  type : ∀ {a b}, p.type a b → Option.Rel (p.Decl a) (c.type? a) (d.type? b)
  member : ∀ {a b}, p.member a b → Option.Rel p.Member (c.member? a) (d.member? b)
  memberIds : ∀ {a b}, p.type a b → List.Forall₂ p.member (c.memberIds a) (d.memberIds b)
  attached : ∀ {e f}, p.element e f → List.Forall₂ p.record (c.attached e) (d.attached f)
  unknownType : ∀ {a b}, p.type a b → c.type? a = none → p.error (.unknownType a) (.unknownType b)
  unknownMember : ∀ {a b}, p.member a b → c.member? a = none →
    p.error (.unknownMember a) (.unknownMember b)
  absent : ∀ {a b decl}, p.type a b → c.type? a = some decl → decl.present = false →
    p.error (.typeNotPresent decl.name) (.typeNotPresent decl.name)
  outOfRange : ∀ {a b decl index reason}, p.member a b → p.parameter a index →
    c.member? a = some decl → decl.params.length ≤ index →
    p.error (.inconsistent reason) (.inconsistent reason)

variable {p : Pairing} {c d : Catalog}

theorem record_kind {r s : Record} (related : p.record r s) : p.type r.kind s.kind := by
  cases r
  cases s
  cases related with
  | record same _ => exact same

theorem type_eq_iff {a b x y : TypeId} (first : p.type a b) (second : p.type x y) :
    a = x ↔ b = y :=
  Relator.rel_eq p.type_unique first second

theorem member_eq_iff {a b x y : MemberId} (first : p.member a b) (second : p.member x y) :
    a = x ↔ b = y :=
  Relator.rel_eq p.member_unique first second

namespace Fits

variable (fits : p.Fits c d) {a b : TypeId} {m n : MemberId}
include fits

theorem typeDecl (paired : p.type a b) :
    Agree p.error (p.Decl a) (c.typeDecl a) (d.typeDecl b) := by
  have stored := fits.type paired
  have unknown := fits.unknownType paired
  unfold Catalog.typeDecl
  generalize d.type? b = second at *
  cases first : c.type? a with
  | none =>
    rw [first] at stored
    cases stored
    exact .error (unknown first)
  | some decl =>
    rw [first] at stored
    cases stored with
    | some related => exact .ok related

theorem memberDecl (paired : p.member m n) :
    Agree p.error p.Member (c.memberDecl m) (d.memberDecl n) := by
  have stored := fits.member paired
  have unknown := fits.unknownMember paired
  unfold Catalog.memberDecl
  generalize d.member? n = second at *
  cases first : c.member? m with
  | none =>
    rw [first] at stored
    cases stored
    exact .error (unknown first)
  | some decl =>
    rw [first] at stored
    cases stored with
    | some related => exact .ok related

theorem typeName (paired : p.type a b) : Agree p.error Eq (c.typeName a) (d.typeName b) :=
  (fits.typeDecl paired).bind fun _ _ _ _ related => .pure related.name

theorem load (paired : p.type a b) : Agree p.error (p.Decl a) (c.load a) (d.load b) := by
  apply (fits.typeDecl paired).bind
  intro decl decl' found _ related
  rw [← related.present]
  apply Agree.ite Iff.rfl
  · intro _
    exact .pure related
  · intro absent
    rw [← related.name]
    exact .error (fits.absent paired (Catalog.type?_of_typeDecl found)
      (Bool.eq_false_iff.mpr absent))

theorem loadMember (paired : p.member m n) :
    Agree p.error p.Member (c.loadMember m) (d.loadMember n) := by
  apply (fits.memberDecl paired).bind
  intro decl decl' _ _ related
  exact (fits.load related.declaring).bind fun _ _ _ _ _ => .pure related

theorem isPresent (paired : p.type a b) : c.isPresent a = d.isPresent b := by
  unfold Catalog.isPresent
  obtain ⟨first, second⟩ | ⟨decl, other, first, second, related⟩ := rel_cases (fits.type paired)
  · rw [first, second]
  · rw [first, second]
    exact related.present

theorem isInherited (paired : p.type a b) : c.isInherited a = d.isInherited b := by
  unfold Catalog.isInherited
  obtain ⟨first, second⟩ | ⟨decl, other, first, second, related⟩ := rel_cases (fits.type paired)
  · rw [first, second]
  · rw [first, second]
    exact related.inherited

theorem loadTarget (paired : p.type a b) :
    Agree p.error p.type (c.loadTarget a) (d.loadTarget b) :=
  (fits.load paired).bind fun _ _ _ _ _ => .pure paired

theorem superclass (paired : p.type a b) :
    Agree p.error (Option.Rel p.type) (c.superclass a) (d.superclass b) := by
  apply (fits.load paired).bind
  intro decl decl' _ _ related
  obtain ⟨first, second⟩ | ⟨ref, other, first, second, paired⟩ := rel_cases related.superclass
  · simp only [first, second]
    exact .pure .none
  · simp only [first, second]
    exact (fits.loadTarget paired.target).map fun _ _ => .some

theorem interfaces (paired : p.type a b) :
    Agree p.error (List.Forall₂ p.type) (c.interfaces a) (d.interfaces b) := by
  apply (fits.load paired).bind
  intro decl decl' _ _ related
  exact .mapM related.interfaces fun _ _ ref => fits.loadTarget ref.target

theorem enclosing (paired : p.type a b) :
    Agree p.error (Option.Rel p.type) (c.enclosing a) (d.enclosing b) := by
  apply (fits.load paired).bind
  intro decl decl' _ _ related
  obtain ⟨first, second⟩ | ⟨outer, other, first, second, paired⟩ := rel_cases related.enclosing
  · simp only [first, second]
    exact .pure .none
  · simp only [first, second]
    exact (fits.loadTarget paired).map fun _ _ => .some

theorem recordsOf {e f : Element} (paired : p.element e f) :
    List.Forall₂ p.record (c.recordsOf e) (d.recordsOf f) := by
  rw [Catalog.recordsOf_eq_filter, Catalog.recordsOf_eq_filter]
  apply List.rel_filter _ (fits.attached paired)
  intro r s related
  show c.isPresent r.kind = true ↔ d.isPresent s.kind = true
  rw [fits.isPresent (record_kind related)]

theorem loadElement {e f : Element} (paired : p.element e f) :
    Agree p.error Eq (c.loadElement e) (d.loadElement f) := by
  cases e with
  | type a =>
    cases f with
    | type b => exact (fits.load paired).bind fun _ _ _ _ _ => .pure rfl
    | member n => cases paired
    | parameter n j => cases paired
  | member m =>
    cases f with
    | type b => cases paired
    | member n => exact (fits.loadMember paired).bind fun _ _ _ _ _ => .pure rfl
    | parameter n j => cases paired
  | parameter m i =>
    cases f with
    | type b => cases paired
    | member n => cases paired
    | parameter n j =>
      obtain ⟨paired, rfl, asked⟩ := paired
      apply (fits.loadMember paired).bind
      intro decl decl' found _ related
      rw [← related.params.length_eq, ← related.name]
      apply Agree.ite Iff.rfl
      · intro _
        exact .pure rfl
      · intro beyond
        obtain ⟨_, known, loaded⟩ := bind_ok found
        obtain ⟨_, _, same⟩ := bind_ok loaded
        cases same
        have stored : c.member? m = some decl := by
          unfold Catalog.memberDecl at known
          split at known
          · cases known
            assumption
          · cases known
        exact .error (fits.outOfRange paired asked stored (by omega))

theorem declaredRecords {e f : Element} (paired : p.element e f) :
    Agree p.error (List.Forall₂ p.record) (c.declaredRecords e) (d.declaredRecords f) :=
  (fits.loadElement paired).bind fun _ _ _ _ _ => .pure (fits.recordsOf paired)

theorem ancestorsWithin (fuel : Nat) (paired : p.type a b) :
    Agree p.error (List.Forall₂ p.type) (c.ancestorsWithin fuel a) (d.ancestorsWithin fuel b) := by
  induction fuel generalizing a b with
  | zero => exact .pure .nil
  | succ fuel ih =>
    apply (fits.superclass paired).bind
    intro above above' _ _ related
    cases related with
    | none => exact .pure .nil
    | some next => exact (ih next).map fun _ _ => .cons next

theorem ancestors (paired : p.type a b) :
    Agree p.error (List.Forall₂ p.type) (c.ancestors a) (d.ancestors b) := by
  have settled : c.ancestorsWithin c.typeCount a = c.ancestorsWithin d.typeCount a := by
    rcases fits.typeCount with same | ⟨acyclic, some, fewer⟩
    · rw [same]
    · exact Catalog.ancestorsWithin_settled acyclic (Catalog.lasts_of_typeCount some le_rfl a)
        (Catalog.lasts_of_typeCount some fewer a)
  unfold Catalog.ancestors
  rw [settled]
  exact fits.ancestorsWithin _ paired

theorem inherit {visible others : List Record} {r s : Record}
    (seen : List.Forall₂ p.record visible others) (related : p.record r s) :
    List.Forall₂ p.record (c.inherit visible r) (d.inherit others s) := by
  have kinds := record_kind related
  have shown : visible.any (·.kind = r.kind) = others.any (·.kind = s.kind) := by
    apply any_eq_of_forall₂ seen
    intro x y same
    rw [decide_eq_decide]
    exact type_eq_iff (record_kind same) kinds
  unfold Catalog.inherit
  rw [fits.isInherited kinds, shown]
  split
  · exact List.rel_append seen (.cons related .nil)
  · exact seen

theorem visibleRecords (paired : p.type a b) :
    Agree p.error (List.Forall₂ p.record) (c.visibleRecords a) (d.visibleRecords b) := by
  have itself : p.element (.type a) (.type b) := paired
  apply (fits.declaredRecords itself).bind
  intro own own' _ _ declared
  apply (fits.ancestors paired).bind
  intro above above' _ _ chain
  apply Agree.pure
  apply List.rel_foldl _ declared chain
  intro visible others seen t u next
  have above : p.element (.type t) (.type u) := next
  apply List.rel_foldl (R := p.record) _ seen (fits.recordsOf above)
  intro visible others seen r s related
  exact fits.inherit seen related

theorem declaredMembers (paired : p.type a b) :
    Agree p.error (List.Forall₂ p.member) (c.declaredMembers a) (d.declaredMembers b) := by
  apply (fits.load paired).bind
  intro _ _ _ _ _
  exact .pure (fits.memberIds paired)

theorem membersWhere (paired : p.type a b) {test test' : MemberDecl → Bool}
    (same : ∀ x y, p.Member x y → (test x ↔ test' y)) :
    List.Forall₂ p.member (c.membersWhere a test) (d.membersWhere b test') := by
  apply List.rel_filter _ (fits.memberIds paired)
  intro m n related
  show (c.member? m).any test ↔ (d.member? n).any test'
  obtain ⟨first, second⟩ | ⟨x, y, first, second, stored⟩ := rel_cases (fits.member related)
  · rw [first, second]
    rfl
  · rw [first, second]
    exact same x y stored

theorem bridged (paired : p.member m n) :
    Agree p.error p.member (c.bridged m) (d.bridged n) := by
  apply (fits.memberDecl paired).bind
  intro decl decl' _ _ related
  obtain ⟨first, second⟩ | ⟨target, other, first, second, standsFor⟩ := rel_cases related.bridgeOf
  · rw [first, second]
    exact .pure paired
  · rw [first, second]
    exact .pure standsFor

end Fits

end Pairing

end Lineage
