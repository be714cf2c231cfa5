import Lineage.Proofs.Catalog.Links
import Lineage.Proofs.Memo.Faithful
import Mathlib.Data.List.Perm.Basic

namespace Lineage

namespace Accessor

theorem insertByName_perm (a : Accessor) (as : List Accessor) :
    (insertByName a as).Perm (a :: as) := by
  induction as with
  | nil => exact .refl _
  | cons b rest ih =>
    unfold insertByName
    split
    · exact .refl _
    · exact (ih.cons b).trans (.swap a b rest)

theorem sortByName_perm (as : List Accessor) : (sortByName as).Perm as := by
  induction as with
  | nil => exact .refl _
  | cons a rest ih => exact (insertByName_perm a _).trans (ih.cons a)

end Accessor

namespace AttributeTable

variable {t : AttributeTable}

structure Aligned (t : AttributeTable) : Prop where
  canFail : t.canFail = t.accessors.map (·.type.isDeferred)
  hasDefault : t.hasDefault = t.accessors.any (·.default.isSome)
  hasNested : t.hasNested = t.accessors.any (·.type.isNested)

theorem ofKind_aligned (kind : TypeId) (name : String) (as : List Accessor) :
    (ofKind kind name as).Aligned := by
  unfold ofKind
  split
  · exact ⟨rfl, rfl, rfl⟩
  · exact ⟨rfl, rfl, rfl⟩

namespace Aligned

variable (aligned : t.Aligned)
include aligned

theorem eq_ofAccessors : t = ofAccessors t.kind t.accessors := by
  cases t
  simp only [ofAccessors, mk.injEq, true_and]
  exact ⟨aligned.canFail, aligned.hasDefault, aligned.hasNested⟩

theorem canFail? (index : Nat) : t.canFail? index = (t.get? index).map (·.type.isDeferred) := by
  rw [AttributeTable.canFail?, aligned.canFail, List.getElem?_map]
  rfl

theorem hazardous : t.hazardous = t.accessors.filter (·.type.isDeferred) := by
  have flagged : t.accessors.zip (t.accessors.map (·.type.isDeferred)) =
      t.accessors.map fun a => (a, a.type.isDeferred) := by
    have both := List.zip_map' (f := id) (g := fun a : Accessor => a.type.isDeferred) (l := t.accessors)
    rwa [List.map_id] at both
  rw [AttributeTable.hazardous, aligned.canFail, flagged, List.filter_map, List.map_map]
  exact List.map_id _

theorem mem_hazardous {a : Accessor} :
    a ∈ t.hazardous ↔ a ∈ t.accessors ∧ a.type.isDeferred = true := by
  rw [aligned.hazardous, List.mem_filter]

end Aligned

theorem accessors_ofKind (kind : TypeId) (name : String) (as : List Accessor) :
    (ofKind kind name as).accessors = Accessor.sortByName as := by
  unfold ofKind
  split
  · rename_i none
    rw [List.isEmpty_iff.mp none]
    rfl
  · rfl

section

variable {c : Catalog} {kind : TypeId} {restricted : Bool}
  (computed : compute c kind restricted = .ok t)
include computed

theorem eq_of_compute : ∃ name decls, (c.memberIds kind).mapM c.memberDecl = .ok decls ∧
    t = ofKind kind name ((decls.filter fun d => !restricted || d.isAttribute).map .ofMember) := by
  obtain ⟨name, _, computed⟩ := bind_ok computed
  obtain ⟨members, listed, computed⟩ := bind_ok computed
  obtain ⟨decls, found, same⟩ := bind_ok computed
  cases same
  obtain ⟨_, _, same⟩ := bind_ok listed
  cases same
  exact ⟨name, decls, found, rfl⟩

theorem compute_aligned : t.Aligned := by
  obtain ⟨name, decls, _, rfl⟩ := eq_of_compute computed
  exact ofKind_aligned kind name _

/-- A table has all attributes that the members of its kind are. -/
theorem mem_compute {id : MemberId} {decl : MemberDecl} (declared : id ∈ c.memberIds kind)
    (known : c.memberDecl id = .ok decl) (isAttribute : decl.isAttribute = true) :
    Accessor.ofMember decl ∈ t.accessors := by
  obtain ⟨name, decls, found, rfl⟩ := eq_of_compute computed
  obtain ⟨other, member, knownToo⟩ := (mapM_ok found).1 id declared
  rw [known] at knownToo
  cases knownToo
  rw [accessors_ofKind, (Accessor.sortByName_perm _).mem_iff]
  refine List.mem_map_of_mem (List.mem_filter.mpr ⟨member, ?_⟩)
  rw [isAttribute, Bool.or_true]

/-- A computed table has no kind or the one it was computed for. -/
theorem kind_of_compute : ∀ own name, t.kind = some (own, name) → own = kind := by
  obtain ⟨name, decls, _, rfl⟩ := eq_of_compute computed
  intro own other known
  unfold ofKind at known
  split at known
  · cases known
  · cases known
    rfl

end

section

variable {r : Record} (own : ∀ kind name, t.kind = some (kind, name) → kind = r.kind)
include own

theorem expect_of_kind : t.expect r = .ok () := by
  unfold expect
  split
  · rename_i kind name known
    rw [if_pos (own kind name known).symm]
  · rfl

theorem isValid_of_kind (c : Catalog) : ∃ valid, t.isValid c r = .ok valid := by
  unfold isValid
  rw [expect_of_kind own]
  exact ⟨_, rfl⟩

end

end AttributeTable

def Catalog.Legible (c : Catalog) (r : Record) : Prop :=
  ∀ id ∈ c.memberIds r.kind, ∀ decl, c.memberDecl id = .ok decl →
    decl.isAttribute = true → decl.returns.isDeferred = true →
    ∃ value, c.readAttribute r decl.id = .ok value

theorem Scanner.legible_of_freshReadable {s : Scanner} {r : Record}
    (readable : s.freshReadable r = true) : s.catalog.Legible r := by
  intro id declared decl known isAttribute deferred
  unfold freshReadable at readable
  cases computed : AttributeTable.compute s.catalog r.kind true with
  | error e =>
    simp only [computed] at readable
    cases readable
  | ok table =>
    have hazardous : Accessor.ofMember decl ∈ table.hazardous :=
      (AttributeTable.compute_aligned computed).mem_hazardous.mpr
        ⟨AttributeTable.mem_compute computed declared known isAttribute, deferred⟩
    cases checked : table.isValid s.catalog r with
    | error wrong =>
      simp only [computed, checked] at readable
      cases readable
    | ok valid =>
      simp only [computed, checked] at readable
      obtain ⟨_, _, all⟩ := bind_ok checked
      cases all
      have here := List.all_eq_true.mp readable _ hazardous
      unfold AttributeTable.isReadable at here
      split at here
      · exact ⟨_, ‹_›⟩
      · cases here

end Lineage
