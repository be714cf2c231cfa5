import Lineage.Proofs.Scan.Rungs

namespace Lineage

open Relation

namespace Catalog

variable {c : Catalog} {source type : TypeId} {types : List TypeId} {left : TypeId → Nat}
  {p : TypeId → Bool}

theorem allotted_gained {visible : List Record} {records : List Record}
    (granted : ∀ kind, p kind = true → left kind = tally kind (c.gained visible records)) :
    allotted left (records.filter (p ·.kind)) =
      (c.gained visible records).filter (p ·.kind) := by
  -- what is left of a kind is always what is still to be gained of it
  induction records generalizing visible left with
  | nil => rfl
  | cons r rest ih =>
    rw [gained] at granted ⊢
    by_cases gains : (c.isInherited r.kind && !visible.any (·.kind = r.kind)) = true
    · rw [if_pos gains] at granted ⊢
      cases shows : p r.kind with
      | false =>
        rw [List.filter_cons_of_neg (by simp [shows]), List.filter_cons_of_neg (by simp [shows])]
        refine ih fun kind shown => ?_
        have other : r.kind ≠ kind := by
          rintro rfl
          rw [shows] at shown
          cases shown
        rw [granted kind shown, tally_cons, tally_single, if_neg other, Nat.zero_add]
      | true =>
        have one := granted r.kind shows
        rw [tally_cons, tally_single, if_pos rfl] at one
        rw [List.filter_cons_of_pos (by simp [shows]), List.filter_cons_of_pos (by simp [shows]),
          allotted, if_neg (by omega)]
        congr 1
        refine ih fun kind shown => ?_
        rw [granted kind shown, tally_cons, Nat.add_sub_cancel_left]
    · rw [if_neg gains] at granted ⊢
      cases shows : p r.kind with
      | false =>
        rw [List.filter_cons_of_neg (by simp [shows])]
        exact ih granted
      | true =>
        have barred : left r.kind = 0 := by
          rw [granted r.kind shows]
          refine tally_gained_of_barred (fun inherited => any_kind_iff.mp ?_) rest
          simpa only [inherited, Bool.true_and, Bool.not_eq_true', Bool.not_eq_false] using gains
        rw [List.filter_cons_of_pos (by simp [shows]), allotted, if_pos barred]
        refine ih fun kind shown => ?_
        rw [← granted kind shown, tally_single]
        split
        · rename_i same
          rw [← same, barred]
        · rfl

/-- Claims on all that is visible are met by the records of a type and of those above it, in order. -/
theorem allotted_visible (own above : List Record) :
    allotted (fun kind => tally kind (own ++ c.gained own above))
        ((own ++ above).filter (p ·.kind)) =
      (own ++ c.gained own above).filter (p ·.kind) := by
  have fewer (kind : TypeId) : tally kind (own.filter (p ·.kind)) ≤ tally kind own :=
    List.Sublist.countP_le List.filter_sublist
  rw [List.filter_append, List.filter_append, allotted_append]
  congr 1
  · refine allotted_of_covered fun kind => ?_
    rw [tally_append]
    exact (fewer kind).trans (Nat.le_add_right _ _)
  · refine allotted_gained fun kind shown => ?_
    have all : tally kind (own.filter (p ·.kind)) = tally kind own := by
      rw [tally, List.countP_filter, tally]
      refine List.countP_congr fun r _ => ?_
      simp only [Bool.and_eq_true, decide_eq_true_eq]
      exact ⟨fun both => both.1, fun same => ⟨same, same ▸ shown⟩⟩
    rw [all, tally_append, Nat.add_sub_cancel_left]

def Beyond (c : Catalog) (source type : TypeId) : Prop :=
  c.Reaches TypeDecl.superLinks source root ∧ c.Reaches TypeDecl.superLinks root type

theorem Chain.beyond_of_top (chain : c.Chain source types)
    (top : source = root ∨ ∀ type ∈ types.head?, type = root) :
    ∀ type ∈ types, c.Beyond source type := by
  intro type member
  rcases top with isRoot | isRoot
  · subst isRoot
    exact ⟨.refl, chain.reached type (List.mem_cons_of_mem _ member)⟩
  · cases chain with
    | last _ => cases member
    | next known rest =>
      cases isRoot _ rfl
      exact ⟨.single (leads_of_superclass known), rest.reached type member⟩

end Catalog

namespace Scanner

/-- All superclasses of a type are there, and none of them below the root is plain; what the type
    implements is there; and what is declared on the way can be read, unless it is ignorable. -/
structure Climbable (s : Scanner) (source : TypeId) : Prop where
  grounded : s.catalog.Grounded TypeDecl.superLinks source
  implements : ∃ ids, s.catalog.interfaces source = .ok ids
  clear : ∀ type, s.catalog.Reaches TypeDecl.superLinks source type →
    ¬s.catalog.Beyond source type → s.isPlainType type = .ok false
  valid : ∀ type, s.catalog.Reaches TypeDecl.superLinks source type →
    ∀ r ∈ s.catalog.recordsOf (.type type), s.ignores r.kind = false → s.freshReadable r = true

variable {s : Scanner} {source : TypeId}

theorem climbable_of_checks {height : TypeId → Nat}
    (descends : s.catalog.Descends TypeDecl.superLinks height)
    (present : s.catalog.isPresent source = true) (implements : s.catalog.interfaces source = .ok [])
    (clear : ∀ entry ∈ s.catalog.types.zipIdx, entry.2 ≠ 0 →
      s.settings.isPlainName entry.1.name = false)
    (valid : ∀ entry ∈ s.catalog.records, s.freshReadable entry.2 = true) : s.Climbable source := by
  have grounded := descends.grounded present
  refine ⟨grounded, ⟨[], implements⟩, fun type reached before => ?_, fun type _ r declared _ => ?_⟩
  · obtain ⟨decl, found, _⟩ := Catalog.load_of_present (grounded.present type reached)
    have notRoot : type.index ≠ 0 := by
      intro isRoot
      have isRoot : type = Catalog.root := by rw [Catalog.root, ← isRoot]
      exact before (isRoot ▸ ⟨isRoot ▸ reached, .refl⟩)
    rw [isPlainType_of_found found,
      clear (decl, type.index) (List.mk_mem_zipIdx_iff_getElem?.mpr found) notRoot]
  · exact valid (_, r) (Catalog.mem_recordsOf.mp declared).1

namespace Climbable

variable {type : TypeId} {types : List TypeId} (climbable : s.Climbable source)
include climbable

theorem kept_eq (reached : s.catalog.Reaches TypeDecl.superLinks source type) :
    s.kept type = (s.catalog.recordsOf (.type type)).filter fun r => !s.ignores r.kind := by
  refine List.filter_congr fun r declared => ?_
  cases ignored : s.ignores r.kind with
  | true =>
    rw [keeps, ignored]
    rfl
  | false =>
    rw [keeps, ignored, climbable.valid type reached r declared ignored]
    rfl

theorem beyond_of_not_isRung (reached : s.catalog.Reaches TypeDecl.superLinks source type)
    (cut : s.isRung type = false) : s.catalog.Beyond source type := by
  by_contra before
  have notRoot : type ≠ Catalog.root := by
    rintro rfl
    exact before ⟨reached, .refl⟩
  obtain ⟨decl, found, _⟩ := Catalog.load_of_present (climbable.grounded.present type reached)
  have notPlain := climbable.clear type reached before
  rw [isPlainType_of_found found] at notPlain
  injection notPlain with notPlain
  rw [isRung, found, Option.any_some, notPlain, bne_iff_ne.mpr notRoot] at cut
  cases cut

theorem beyond_cut (chain : s.catalog.Chain type types)
    (reached : s.catalog.Reaches TypeDecl.superLinks source type) :
    ∀ t ∈ (type :: types).dropWhile s.isRung, s.catalog.Beyond source t := by
  have onward {id : TypeId} {above : List TypeId} (chain : s.catalog.Chain id above)
      (reached : s.catalog.Reaches TypeDecl.superLinks source id) (cut : s.isRung id = false) :
      ∀ t ∈ id :: above, s.catalog.Beyond source t := by
    have beyond := climbable.beyond_of_not_isRung reached cut
    intro t member
    exact ⟨beyond.1, beyond.2.trans (chain.reached t member)⟩
  induction chain with
  | @last id known =>
    cases cut : s.isRung id with
    | false =>
      rw [List.dropWhile_cons_of_neg (by simp [cut])]
      exact onward (.last known) reached cut
    | true =>
      rw [List.dropWhile_cons_of_pos cut]
      exact fun t member => by cases member
  | @next id above types known rest ih =>
    cases cut : s.isRung id with
    | false =>
      rw [List.dropWhile_cons_of_neg (by simp [cut])]
      exact onward (.next known rest) reached cut
    | true =>
      rw [List.dropWhile_cons_of_pos cut]
      exact ih (reached.tail (Catalog.leads_of_superclass known))

theorem kept_on_ladder (chain : s.catalog.Chain source types)
    (bare : ∀ type, s.catalog.Beyond source type → s.catalog.recordsOf (.type type) = []) :
    ((source :: types).takeWhile s.isRung).flatMap s.kept =
      (s.catalog.recordsOf (.type source) ++
        types.flatMap fun type => s.catalog.recordsOf (.type type)).filter
          fun r => !s.ignores r.kind := by
  have cut : ((source :: types).dropWhile s.isRung).flatMap s.kept = [] := by
    refine List.flatMap_eq_nil_iff.mpr fun type member => ?_
    rw [kept, bare type (climbable.beyond_cut chain .refl type member)]
    rfl
  calc ((source :: types).takeWhile s.isRung).flatMap s.kept
    _ = (source :: types).flatMap s.kept := by
      rw [← List.takeWhile_append_dropWhile (p := s.isRung) (l := source :: types),
        List.flatMap_append, cut, List.append_nil, List.takeWhile_append_dropWhile]
    _ = (source :: types).flatMap fun type => (s.catalog.recordsOf (.type type)).filter
        fun r => !s.ignores r.kind :=
      List.flatMap_congr fun type member => climbable.kept_eq (chain.reached type member)
    _ = _ := by rw [← List.filter_flatMap, List.flatMap_cons]

end Climbable

theorem spread_records (s : Scanner) (index : Nat) (left : TypeId → Nat) (types : List TypeId) :
    (s.spread index left types).map (·.record) = allotted left (types.flatMap s.kept) := by
  induction types generalizing index left with
  | nil => rfl
  | cons id rest ih =>
    rw [spread, List.map_append, List.map_map, ih, List.flatMap_cons, allotted_append]
    congr 1
    exact List.map_id _

end Scanner

namespace Scan

variable {σ ο : Type}

/-- An inherited walk shows exactly the visible records of a type that are not ignorable. -/
def ShowsVisible (s : Scan σ ο) (history : List Operation) (source : TypeId) : Prop :=
  ∃ visible, s.scanner.catalog.visibleRecords source = .ok visible ∧
    (Event.found (s.logAfter history .inherited (.type source))).map (·.record) =
      visible.filter fun r => !s.scanner.ignores r.kind

/-- The root is where the walk ends, so neither it nor what is above it may declare a record. -/
theorem inherited_shows_visible (s : Scan σ ο) (history : List Operation) {source : TypeId}
    (unfiltered : ∀ type, s.rejects type = false) (patient : s.visitor.Patient)
    (climbable : s.scanner.Climbable source)
    (bare : ∀ type, s.scanner.catalog.Beyond source type →
      s.scanner.catalog.recordsOf (.type type) = []) : s.ShowsVisible history source := by
  obtain ⟨types, chain⟩ := climbable.grounded.chain
  obtain ⟨ids, implements⟩ := climbable.implements
  let own := s.scanner.catalog.recordsOf (.type source)
  let above := types.flatMap fun type => s.scanner.catalog.recordsOf (.type type)
  have known := Catalog.visibleRecords_of_chain chain climbable.grounded.acyclic
  obtain ⟨alone, asked, top⟩ :=
    Catalog.isWithoutHierarchy_of_interfaces chain.superclass implements
  refine ⟨_, known, ?_⟩
  rw [s.logAfter_of_patient history .inherited _ patient]
  show (Event.found ((s.terrain.inheritedType s.depth source).run 0).events).map (·.record) = _
  cases alone with
  | true =>
    have nothing : above = [] := List.flatMap_eq_nil_iff.mpr fun type member =>
      bare type (chain.beyond_of_top (top rfl) type member)
    have declared := Scanner.freshSlots_of_present (chain.present source List.mem_cons_self)
    rw [Terrain.inheritedType_found_of_alone (t := s.terrain) unfiltered asked rfl]
    show ((((s.scanner.freshSlots (.type source)).toOption.getD []).filterMap id).map
      (⟨0, Element.type source, ·⟩)).map Found.record =
        (own ++ s.scanner.catalog.gained own above).filter _
    rw [declared, nothing, Catalog.gained, List.append_nil, ← climbable.kept_eq .refl,
      ← Scanner.filterMap_slotsOf, List.map_map]
    exact List.map_id _
  | false =>
    have enough : types.length < s.depth :=
      (chain.length_lt_typeCount climbable.grounded.acyclic).trans_le s.typeCount_le_depth
    rw [Terrain.inheritedType_found (t := s.terrain) unfiltered asked rfl known chain enough,
      Scanner.spread_records]
    show allotted _ (((source :: types).takeWhile s.scanner.isRung).flatMap s.scanner.kept) = _
    rw [climbable.kept_on_ladder chain bare]
    exact Catalog.allotted_visible (p := fun kind => !s.scanner.ignores kind) own above

def heir : Scan (List Level) (List Level) where
  scanner := ⟨.ofDecls [Catalog.rootDecl,
    ⟨⟨1⟩, "shape.Passed", .recordKind, [], none, [], none, true, true⟩,
    ⟨⟨2⟩, "shape.Own", .recordKind, [], none, [], none, false, true⟩,
    ⟨⟨3⟩, "shape.Parent", .classType, [], some ⟨⟨0⟩, []⟩, [], none, false, true⟩,
    ⟨⟨4⟩, "shape.Heir", .classType, [], some ⟨⟨3⟩, []⟩, [], none, false, true⟩] []
    [(.type ⟨3⟩, .ofKind ⟨1⟩), (.type ⟨4⟩, .ofKind ⟨2⟩)], {}⟩
  visitor := .levels
  rejects _ := false

theorem heir_shows_visible : heir.ShowsVisible [.clear] ⟨4⟩ := by
  have descends : heir.scanner.catalog.Descends TypeDecl.superLinks TypeId.index := by decide
  have climbable : heir.scanner.Climbable ⟨4⟩ :=
    Scanner.climbable_of_checks descends rfl rfl (by decide) (by decide)
  refine inherited_shows_visible heir [.clear] (fun _ => rfl) Visitor.levels_patient climbable ?_
  rintro type ⟨_, reached⟩
  rcases ReflTransGen.cases_head reached with rfl | ⟨above, leads, _⟩
  · rfl
  · exact absurd (descends.leads leads).1 (Nat.not_lt_zero _)

def raised : Scan (List Level) (List Level) where
  scanner := ⟨.ofDecls [⟨⟨0⟩, "lang.Object", .classType, [], some ⟨⟨2⟩, []⟩, [], none, false, true⟩,
    ⟨⟨1⟩, "shape.Passed", .recordKind, [], none, [], none, true, true⟩,
    ⟨⟨2⟩, "shape.Top", .interface, [], none, [], none, false, true⟩,
    ⟨⟨3⟩, "shape.Low", .classType, [], some ⟨⟨0⟩, []⟩, [], none, false, true⟩] []
    [(.type ⟨2⟩, .ofKind ⟨1⟩)], {}⟩
  visitor := .levels
  rejects _ := false

/-- A record that is declared above the root is visible and not shown. -/
theorem raised_hides_visible :
    raised.scanner.Climbable ⟨3⟩ ∧ raised.scanner.catalog.recordsOf (.type Catalog.root) = [] ∧
      raised.visitor.Patient ∧ (∀ type, raised.rejects type = false) ∧
      ¬raised.ShowsVisible [] ⟨3⟩ := by
  let height (type : TypeId) : Nat := if type = ⟨2⟩ then 0 else type.index + 1
  have descends : raised.scanner.catalog.Descends TypeDecl.superLinks height := by decide
  have climbable : raised.scanner.Climbable ⟨3⟩ :=
    Scanner.climbable_of_checks descends rfl rfl (by decide) (by decide)
  refine ⟨climbable, rfl, Visitor.levels_patient, fun _ => rfl, ?_⟩
  rintro ⟨visible, known, shown⟩
  have found : raised.scanner.catalog.visibleRecords ⟨3⟩ = .ok [.ofKind ⟨1⟩] := rfl
  rw [found] at known
  cases known
  rw [raised.logAfter_of_patient [] .inherited _ Visitor.levels_patient] at shown
  have nothing : Event.found (raised.terrain.events raised.depth .inherited (.type ⟨3⟩)) = [] := rfl
  rw [nothing] at shown
  cases shown

end Scan

end Lineage
