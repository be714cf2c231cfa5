import Lineage.Proofs.Catalog.Overrides
import Lineage.Proofs.Catalog.Reach
import Lineage.Proofs.Scanner.Declared

namespace Lineage.Scanner

variable {s : Scanner} {id : TypeId} {d member : MemberDecl}

def plain (s : Scanner) (id : TypeId) : Bool :=
  (s.catalog.type? id).any fun decl => s.settings.isPlainName decl.name

def carries (s : Scanner) (d : MemberDecl) : Bool :=
  !s.plain d.declaring && !(s.slotsOf (.member d.id)).isEmpty

/-- The members that may be overridden from below a type: of a class its own ones but the private,
    of an interface the public ones of it and of all that is above it, each only if it carries
    records. -/
def candidates (s : Scanner) (id : TypeId) : List MemberDecl :=
  let members :=
    if (s.catalog.type? id).any (·.isInterface) then
      (s.catalog.lineage id).flatMap fun t =>
        (s.catalog.membersOf t).filter (·.visibility = .everyone)
    else (s.catalog.membersOf id).filter (!·.isPrivate)
  members.filter s.carries

def shownOn (s : Scanner) (member : MemberDecl) (id : TypeId) : List MemberDecl :=
  if id = member.declaring then [member]
  else (s.candidates id).filter fun d => s.catalog.overrides member.id d.id = .ok true

theorem plain_of_found {decl : TypeDecl} (found : s.catalog.type? id = some decl) :
    s.plain id = s.settings.isPlainName decl.name := by
  rw [plain, found, Option.any_some]

theorem isPlainType_of_present (present : s.catalog.isPresent id = true) :
    s.isPlainType id = .ok (s.plain id) := by
  obtain ⟨decl, found, _⟩ := Catalog.load_of_present present
  rw [isPlainType_of_found found, plain_of_found found]

theorem keepFresh_of_ok {α β : Type} {test : α → Except QueryError Bool} {passes : β → Bool}
    {f : β → α} {items : List β} (each : ∀ b ∈ items, test (f b) = .ok (passes b)) :
    keepFresh test (items.map f) = .ok ((items.filter passes).map f) := by
  induction items with
  | nil => rfl
  | cons b rest ih =>
    have others := ih fun other listed => each other (List.mem_cons_of_mem _ listed)
    simp only [List.map_cons, keepFresh, each b List.mem_cons_self, others, List.filter_cons]
    cases passes b <;> rfl

theorem freshQualifies_of_present (onInterface : Bool)
    (found : s.catalog.memberDecl d.id = .ok d) (present : s.catalog.isPresent d.declaring = true) :
    s.freshQualifies onInterface d.id = .ok ((onInterface || !d.isPrivate) && s.carries d) := by
  have slots := freshSlots_of_loaded (s := s) (Catalog.loadElement_member_of_present found present)
  simp only [freshQualifies, found, isPlainType_of_present present, slots, carries, Bind.bind,
    Except.bind]
  cases onInterface <;> cases d.isPrivate <;> cases s.plain d.declaring <;> rfl

section

variable (aligned : s.catalog.Aligned) (grounded : s.catalog.Grounded TypeDecl.above id)
include aligned grounded

theorem declaring_of_mem_candidates (listed : d ∈ s.candidates id) :
    s.catalog.memberDecl d.id = .ok d ∧ s.catalog.isPresent d.declaring = true := by
  obtain ⟨listed, _⟩ := List.mem_filter.mp listed
  split at listed
  · obtain ⟨t, above, listed⟩ := List.mem_flatMap.mp listed
    obtain ⟨found, rfl⟩ := aligned.numbered.memberDecl (List.mem_filter.mp listed).1
    exact ⟨found, grounded.present _ ((Catalog.mem_lineage grounded).mp above)⟩
  · obtain ⟨found, rfl⟩ := aligned.numbered.memberDecl (List.mem_filter.mp listed).1
    exact ⟨found, grounded.here⟩

omit grounded in
theorem candidates_ids_nodup (id : TypeId) : ((s.candidates id).map (·.id)).Nodup := by
  refine (List.filter_sublist.map _).nodup ?_
  split
  · exact aligned.numbered.ids_of_types_nodup Catalog.lineage_nodup _
  · exact ((List.filter_sublist.trans List.filter_sublist).map _).nodup aligned.numbered.ids_nodup

theorem freshQualified_of_grounded :
    s.freshQualified id = .ok ((s.candidates id).map (·.id)) := by
  obtain ⟨decl, found, loaded⟩ := Catalog.load_of_present grounded.here
  simp only [freshQualified, Catalog.typeDecl_of_load loaded, candidates, found, Option.any_some,
    Bind.bind, Except.bind]
  cases decl.isInterface with
  | true =>
    have each : ∀ d ∈ (s.catalog.lineage id).flatMap fun t =>
        (s.catalog.membersOf t).filter (·.visibility = .everyone),
        s.freshQualifies true d.id = .ok (s.carries d) := by
      intro d listed
      obtain ⟨t, above, listed⟩ := List.mem_flatMap.mp listed
      obtain ⟨known, rfl⟩ := aligned.numbered.memberDecl (List.mem_filter.mp listed).1
      exact freshQualifies_of_present true known
        (grounded.present _ ((Catalog.mem_lineage grounded).mp above))
    simp only [↓reduceIte, Catalog.publicMembers_of_grounded aligned grounded, ← List.map_flatMap,
      keepFresh_of_ok each]
  | false =>
    have each : ∀ d ∈ s.catalog.membersOf id,
        s.freshQualifies false d.id = .ok (!d.isPrivate && s.carries d) := by
      intro d listed
      obtain ⟨known, rfl⟩ := aligned.numbered.memberDecl listed
      exact freshQualifies_of_present false known grounded.here
    simp only [Bool.false_eq_true, ↓reduceIte, Catalog.declaredMembers, loaded,
      aligned.memberIds, Bind.bind, Except.bind, Pure.pure, Except.pure, keepFresh_of_ok each, List.filter_filter]
    simp only [Bool.and_comm]

theorem freshMembers_of_grounded (inner : id ≠ Catalog.root) (notPlain : s.plain id = false) :
    s.freshMembers id = .ok ((s.candidates id).map (·.id)) := by
  simp only [freshMembers, inner, ↓reduceIte, isPlainType_of_present grounded.here,
    notPlain, freshQualified_of_grounded aligned grounded, Bind.bind, Except.bind,
    Bool.false_eq_true]

end

end Lineage.Scanner
