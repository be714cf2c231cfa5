import Lineage.Proofs.Scan.Rungs

namespace Lineage

/-- From other types only records of inherited kinds are shown, and those of one kind at one level
    only. -/
structure Disciplined (c : Catalog) (source : TypeId) (shown : List Found) : Prop where
  inherited : ∀ f ∈ shown, f.source ≠ .type source → c.isInherited f.record.kind = true
  once : ∀ f ∈ shown, ∀ g ∈ shown, f.record.kind = g.record.kind →
    f.index = g.index ∧ f.source = g.source

variable {c : Catalog} {source : TypeId}

theorem Disciplined.of_subset {some all : List Found} (disciplined : Disciplined c source all)
    (subset : some ⊆ all) : Disciplined c source some :=
  ⟨fun f member => disciplined.inherited f (subset member),
    fun f left g right => disciplined.once f (subset left) g (subset right)⟩

theorem Disciplined.nothing : Disciplined c source [] :=
  ⟨fun _ member => (by cases member), fun _ member => (by cases member)⟩

theorem Disciplined.alone (records : List Record) :
    Disciplined c source (records.map (⟨0, .type source, ·⟩)) := by
  refine ⟨fun f member other => ?_, fun f left g right _ => ?_⟩
  · obtain ⟨r, _, rfl⟩ := List.mem_map.mp member
    exact absurd rfl other
  · obtain ⟨_, _, rfl⟩ := List.mem_map.mp left
    obtain ⟨_, _, rfl⟩ := List.mem_map.mp right
    exact ⟨rfl, rfl⟩

namespace Catalog

theorem tally_visible_of_own {kind : TypeId} {own : List Record} (declared : 0 < tally kind own)
    (above : List Record) : tally kind (own ++ c.gained own above) = tally kind own := by
  rw [tally_append, tally_gained_of_barred (fun _ => declared), Nat.add_zero]

theorem tally_visible_of_not_own {kind : TypeId} {own : List Record}
    (undeclared : tally kind own = 0) (above : List Record) :
    tally kind (own ++ c.gained own above) ≤ 1 ∧
      (0 < tally kind (own ++ c.gained own above) → c.isInherited kind = true) := by
  rw [tally_append, undeclared, Nat.zero_add]
  refine ⟨tally_gained_le_one above, fun claimed => ?_⟩
  by_contra barred
  rw [tally_gained_of_barred (fun inherited => absurd inherited barred)] at claimed
  cases claimed

end Catalog

namespace Scanner

variable {s : Scanner}

/-- The claims that a type makes by its own records do no harm: wherever a further type shows a kind,
    they are used up before, or none is used before and the kind is inherited. -/
def SettlesOwn (s : Scanner) (source : TypeId) : Prop :=
  ∀ types, s.catalog.ancestors source = .ok types → ∀ below type above,
    (source :: types).takeWhile s.isRung = source :: below ++ type :: above →
    ∀ r ∈ s.kept type,
      let own := tally r.kind (s.catalog.recordsOf (.type source))
      let used := tally r.kind ((source :: below).flatMap s.kept)
      own ≤ used ∨ (s.catalog.isInherited r.kind = true ∧ used = 0)

theorem mem_spread {f : Found} {index : Nat} {left : TypeId → Nat} {types : List TypeId} :
    f ∈ s.spread index left types ↔ ∃ below type above, types = below ++ type :: above ∧
      f.index = index + below.length ∧ f.source = .type type ∧
      f.record ∈ allotted (fun kind => left kind - tally kind (below.flatMap s.kept))
        (s.kept type) := by
  induction types generalizing index left with
  | nil =>
    refine ⟨fun member => (by cases member), ?_⟩
    rintro ⟨below, type, above, split, _⟩
    cases below <;> cases split
  | cons first rest ih =>
    rw [spread, List.mem_append, List.mem_map, ih]
    constructor
    · rintro (⟨r, shown, rfl⟩ | ⟨below, type, above, rfl, level, known, shown⟩)
      · exact ⟨[], first, rest, rfl, rfl, rfl, shown⟩
      · refine ⟨first :: below, type, above, rfl, ?_, known, ?_⟩
        · rw [level, List.length_cons]
          omega
        · simp only [List.flatMap_cons, tally_append, Nat.sub_add_eq]
          exact shown
    · rintro ⟨below, type, above, split, level, known, shown⟩
      cases below with
      | nil =>
        cases split
        exact .inl ⟨f.record, shown, by cases f; cases level; cases known; rfl⟩
      | cons other below =>
        cases split
        refine .inr ⟨below, type, above, rfl, ?_, known, ?_⟩
        · rw [level, List.length_cons]
          omega
        · simp only [List.flatMap_cons, tally_append, Nat.sub_add_eq] at shown
          exact shown

theorem mem_spread_of_claim {index : Nat} {left : TypeId → Nat} {below above : List TypeId}
    {type : TypeId} {r : Record} (kept : r ∈ s.kept type)
    (claimed : tally r.kind (below.flatMap s.kept) < left r.kind) :
    ∃ f ∈ s.spread index left (below ++ type :: above),
      f.index = index + below.length ∧ f.source = .type type ∧ f.record.kind = r.kind := by
  let rest (kind : TypeId) : Nat := left kind - tally kind (below.flatMap s.kept)
  have some : 0 < tally r.kind (allotted rest (s.kept type)) := by
    rw [tally_allotted]
    exact Nat.lt_min.mpr ⟨Nat.sub_pos_of_lt claimed, tally_pos.mpr ⟨r, kept, rfl⟩⟩
  obtain ⟨shown, member, same⟩ := tally_pos.mp some
  exact ⟨⟨index + below.length, .type type, shown⟩,
    mem_spread.mpr ⟨below, type, above, rfl, rfl, rfl, member⟩, rfl, rfl, same⟩

section

variable {types above : List TypeId} {records : List Record}

def claimsOn (s : Scanner) (source : TypeId) (records : List Record) (kind : TypeId) : Nat :=
  tally kind (s.catalog.recordsOf (.type source) ++
    s.catalog.gained (s.catalog.recordsOf (.type source)) records)

def rungs (s : Scanner) (source : TypeId) (types : List TypeId) (records : List Record) :
    List Found :=
  s.spread 0 (s.claimsOn source records) ((source :: types).takeWhile s.isRung)

structure Rung (s : Scanner) (source : TypeId) (types : List TypeId) (f : Found)
    (below : List TypeId) (type : TypeId) : Prop where
  split : ∃ above, (source :: types).takeWhile s.isRung = below ++ type :: above
  index : f.index = below.length
  source : f.source = .type type
  kept : f.record ∈ s.kept type

theorem rung_of_mem {f : Found} (member : f ∈ s.rungs source types records) :
    ∃ below type, s.Rung source types f below type ∧
      tally f.record.kind (below.flatMap s.kept) < s.claimsOn source records f.record.kind := by
  obtain ⟨below, type, further, split, level, known, shown⟩ := mem_spread.mp member
  have claimed := claimed_of_allotted shown
  refine ⟨below, type, ⟨⟨further, split⟩, ?_, known, mem_of_allotted shown⟩, by omega⟩
  rw [level, Nat.zero_add]

theorem head_of_ladder {first : TypeId}
    (split : (source :: types).takeWhile s.isRung = first :: above) :
    first = source ∧ s.isRung source = true := by
  rw [List.takeWhile_cons] at split
  split at split
  · rename_i isRung
    injection split with same
    exact ⟨same.symm, isRung⟩
  · cases split

theorem Rung.below_source {f : Found} {below : List TypeId} {type : TypeId}
    (rung : s.Rung source types f below type) (further : below ≠ []) :
    ∃ rest, below = source :: rest := by
  obtain ⟨above, split⟩ := rung.split
  cases below with
  | nil => exact absurd rfl further
  | cons first rest => exact ⟨rest, by rw [(head_of_ladder split).1]⟩

theorem SettlesOwn.further (settles : s.SettlesOwn source)
    (known : s.catalog.ancestors source = .ok types) {f : Found} {below : List TypeId}
    {type : TypeId} (rung : s.Rung source types f below type) (further : below ≠ [])
    (claimed : tally f.record.kind (below.flatMap s.kept) <
      s.claimsOn source records f.record.kind) :
    s.catalog.isInherited f.record.kind = true ∧
      tally f.record.kind (below.flatMap s.kept) = 0 := by
  obtain ⟨rest, rfl⟩ := rung.below_source further
  obtain ⟨beyond, split⟩ := rung.split
  by_cases declared : 0 < tally f.record.kind (s.catalog.recordsOf (.type source))
  · rw [claimsOn, Catalog.tally_visible_of_own declared] at claimed
    rcases settles types known rest type beyond split f.record rung.kept with used | inOrder
    · exact absurd claimed (Nat.not_lt.mpr used)
    · exact inOrder
  · have undeclared : tally f.record.kind (s.catalog.recordsOf (.type source)) = 0 := by omega
    obtain ⟨atMostOne, inherited⟩ := s.catalog.tally_visible_of_not_own undeclared records
    exact ⟨inherited (Nat.zero_lt_of_lt claimed), Nat.lt_one_iff.mp (claimed.trans_le atMostOne)⟩

theorem SettlesOwn.once (settles : s.SettlesOwn source)
    (known : s.catalog.ancestors source = .ok types) {f g : Found} {below mid rest : List TypeId}
    {type other : TypeId} (first : s.Rung source types f below type)
    (second : s.Rung source types g (below ++ mid) other) (same : f.record.kind = g.record.kind)
    (parted : type :: rest = mid ++ other :: above)
    (claimed : tally g.record.kind ((below ++ mid).flatMap s.kept) <
      s.claimsOn source records g.record.kind) :
    f.index = g.index ∧ f.source = g.source := by
  cases mid with
  | nil =>
    injection parted with joined
    rw [first.index, second.index, first.source, second.source, List.append_nil, joined]
    exact ⟨rfl, rfl⟩
  | cons next mid =>
    -- then the nearer rung has used a claim on what the further one shows
    injection parted with joined
    subst joined
    have unused := (settles.further known second (by simp) claimed).2
    have some : 0 < tally g.record.kind (s.kept type) :=
      tally_pos.mpr ⟨f.record, first.kept, same⟩
    rw [List.flatMap_append, List.flatMap_cons, tally_append, tally_append] at unused
    omega

theorem SettlesOwn.disciplined (settles : s.SettlesOwn source)
    (known : s.catalog.ancestors source = .ok types) :
    Disciplined s.catalog source (s.rungs source types records) := by
  refine ⟨fun f member elsewhere => ?_, fun f left g right same => ?_⟩
  · obtain ⟨below, type, rung, claimed⟩ := rung_of_mem member
    refine (settles.further known rung ?_ claimed).1
    rintro rfl
    obtain ⟨above, split⟩ := rung.split
    rw [rung.source, (head_of_ladder split).1] at elsewhere
    exact elsewhere rfl
  · obtain ⟨below, type, first, claimed⟩ := rung_of_mem left
    obtain ⟨under, other, second, alsoClaimed⟩ := rung_of_mem right
    obtain ⟨rest, split⟩ := first.split
    obtain ⟨above, alsoSplit⟩ := second.split
    rw [split] at alsoSplit
    rcases List.append_eq_append_iff.mp alsoSplit with ⟨mid, rfl, parted⟩ | ⟨mid, rfl, parted⟩
    · exact settles.once known first second same parted alsoClaimed
    · obtain ⟨index, source⟩ := settles.once known second first same.symm parted claimed
      exact ⟨index.symm, source.symm⟩

theorem rungs_of_claim {below : List TypeId} {type : TypeId} {r : Record}
    (split : (source :: types).takeWhile s.isRung = below ++ type :: above) (kept : r ∈ s.kept type)
    (claimed : tally r.kind (below.flatMap s.kept) < s.claimsOn source records r.kind) :
    ∃ f ∈ s.rungs source types records,
      f.index = below.length ∧ f.source = .type type ∧ f.record.kind = r.kind := by
  rw [rungs, split]
  obtain ⟨f, member, level, rest⟩ := mem_spread_of_claim kept claimed
  exact ⟨f, member, level.trans (Nat.zero_add _), rest⟩

theorem settlesOwn_of_disciplined (nodup : (source :: types).Nodup)
    (known : s.catalog.ancestors source = .ok types)
    (disciplined : Disciplined s.catalog source (s.rungs source types records)) :
    s.SettlesOwn source := by
  intro others same below type above split r kept own used
  rw [known] at same
  cases same
  by_contra unsettled
  rw [not_or, Nat.not_le] at unsettled
  obtain ⟨left, notBoth⟩ := unsettled
  have claims : s.claimsOn source records r.kind = own :=
    Catalog.tally_visible_of_own (Nat.zero_lt_of_lt left) records
  -- the claim that is left is used at the further rung, so the kind has to be inherited
  obtain ⟨f, shown, level, place, kind⟩ := rungs_of_claim split kept (claims.symm ▸ left)
  have elsewhere : f.source ≠ .type source := by
    have distinct := nodup.sublist (List.takeWhile_sublist s.isRung)
    rw [split, List.cons_append, List.nodup_cons] at distinct
    rw [place]
    intro same
    injection same with same
    exact distinct.1 (same ▸ by simp)
  have inherited := disciplined.inherited f shown elsewhere
  -- hence some claim was used before, and the kind is shown at two levels
  have some : 0 < used := Nat.pos_of_ne_zero fun unused => notBoth ⟨kind ▸ inherited, unused⟩
  obtain ⟨earlier, member, alike⟩ := tally_pos.mp some
  obtain ⟨lower, there, keptThere⟩ := List.mem_flatMap.mp member
  obtain ⟨before, after, parted⟩ := List.append_of_mem there
  have fewer : tally earlier.kind (before.flatMap s.kept) ≤ used := by
    show _ ≤ tally r.kind ((source :: below).flatMap s.kept)
    rw [parted, List.flatMap_append, tally_append, alike]
    exact Nat.le_add_right _ _
  have splitThere : (source :: types).takeWhile s.isRung =
      before ++ lower :: (after ++ type :: above) := by
    rw [split, parted, List.append_assoc, List.cons_append]
  have leftThere : tally earlier.kind (before.flatMap s.kept) <
      s.claimsOn source records earlier.kind := by
    rw [alike, claims, ← alike]
    exact fewer.trans_lt left
  obtain ⟨g, shownThere, levelThere, _, kindThere⟩ :=
    rungs_of_claim splitThere keptThere leftThere
  have sameLevel := (disciplined.once f shown g shownThere (by rw [kind, kindThere, alike])).1
  have lengths := congrArg List.length parted
  rw [List.length_append, ← level, ← levelThere, sameLevel] at lengths
  simp only [List.length_cons] at lengths
  omega

end

end Scanner

namespace Terrain

variable {t : Terrain}

theorem inheritedType_disciplined (unfiltered : ∀ type, t.rejects type = false)
    (acyclic : t.scanner.catalog.AcyclicFrom TypeDecl.superLinks source)
    (settles : t.scanner.SettlesOwn source) {fuel : Nat}
    (enough : t.scanner.catalog.typeCount ≤ fuel) :
    Disciplined t.scanner.catalog source
      (Event.found ((t.inheritedType fuel source).run 0).events) := by
  cases asked : t.scanner.catalog.isWithoutHierarchy .inherited (.type source) with
  | error e =>
    rw [inheritedType_found_of_unasked asked]
    exact .nothing
  | ok alone =>
    cases alone with
    | true =>
      rw [inheritedType_found_of_alone unfiltered asked rfl]
      exact .alone _
    | false =>
      cases known : t.scanner.catalog.visibleRecords source with
      | error e =>
        rw [inheritedType_found_of_error asked rfl known]
        exact .nothing
      | ok visible =>
        obtain ⟨types, chain⟩ := Catalog.chain_of_visibleRecords known acyclic
        have shorter := (chain.length_lt_typeCount acyclic).trans_le enough
        rw [inheritedType_found unfiltered asked rfl known chain shorter]
        rw [Catalog.visibleRecords_of_chain chain acyclic] at known
        cases known
        exact settles.disciplined (chain.ancestors acyclic)

end Terrain

namespace Scanner

variable {s : Scanner}

theorem isRung_ne_root {type : TypeId} (isRung : s.isRung type = true) : type ≠ Catalog.root :=
  bne_iff_ne.mp (Bool.and_eq_true_iff.mp isRung).1

theorem found_of_further {types below above : List TypeId} {type : TypeId} {fuel : Nat}
    (chain : s.catalog.Chain source types)
    (acyclic : s.catalog.AcyclicFrom TypeDecl.superLinks source)
    (enough : s.catalog.typeCount ≤ fuel)
    (split : (source :: types).takeWhile s.isRung = source :: below ++ type :: above) :
    Event.found (((⟨s, fun _ => false⟩ : Terrain).inheritedType fuel source).run 0).events =
      s.rungs source types (types.flatMap fun type => s.catalog.recordsOf (.type type)) := by
  have asked : s.catalog.isWithoutHierarchy .inherited (.type source) = .ok false := by
    have isRung := (head_of_ladder split).2
    rw [List.takeWhile_cons, if_pos isRung, List.cons_append] at split
    injection split with _ further
    cases chain with
    | last _ => cases below <;> cases further
    | next known _ =>
      rw [List.takeWhile_cons] at further
      split at further
      · rename_i nextRung
        exact Catalog.isWithoutHierarchy_of_superclass known (isRung_ne_root isRung)
          (isRung_ne_root nextRung)
      · cases below <;> cases further
  have shorter := (chain.length_lt_typeCount acyclic).trans_le enough
  exact Terrain.inheritedType_found (fun _ => rfl) asked rfl
    (Catalog.visibleRecords_of_chain chain acyclic) chain shorter

/-- Every inherited walk from a type is in order if and only if the type settles its own claims. -/
theorem inherited_disciplined_iff (s : Scanner) {source : TypeId}
    (acyclic : s.catalog.AcyclicFrom TypeDecl.superLinks source) :
    (∀ (σ ο : Type) (visitor : Visitor σ ο) (history : List Operation),
      Disciplined s.catalog source (Event.found
        (Scan.logAfter ⟨s, visitor, fun _ => false⟩ history .inherited (.type source)))) ↔
      s.SettlesOwn source := by
  constructor
  · intro always types known below type above split
    have further : types ≠ [] := by
      rintro rfl
      have cut := (List.takeWhile_sublist s.isRung (l := [source])).length_le
      rw [split, List.length_append, List.length_cons, List.length_cons, List.length_singleton] at cut
      omega
    have chain := Catalog.chain_of_ancestors known (Catalog.present_of_ancestors known further) acyclic
    let scan : Scan (List Level) (List Level) := ⟨s, .levels, fun _ => false⟩
    have disciplined := always _ _ Visitor.levels []
    have events : Scan.logAfter ⟨s, Visitor.levels, fun _ => false⟩ [] .inherited (.type source) =
        (((⟨s, fun _ => false⟩ : Terrain).inheritedType scan.depth source).run 0).events :=
      scan.logAfter_of_patient [] .inherited (.type source) Visitor.levels_patient
    rw [events, found_of_further chain acyclic scan.typeCount_le_depth split] at disciplined
    exact settlesOwn_of_disciplined (chain.nodup acyclic) known disciplined types known below type
      above split
  · intro settles σ ο visitor history
    let scan : Scan σ ο := ⟨s, visitor, fun _ => false⟩
    have whole : Disciplined s.catalog source
        (Event.found (scan.terrain.events scan.depth .inherited (.type source))) :=
      Terrain.inheritedType_disciplined (t := scan.terrain) (fun _ => rfl) acyclic settles
        scan.typeCount_le_depth
    refine whole.of_subset ?_
    obtain ⟨rest, split⟩ := scan.logAfter_prefix history .inherited (.type source)
    rw [← split, Event.found_append]
    exact List.subset_append_left _ _

def unread : Scanner where
  catalog := .ofDecls [Catalog.rootDecl,
    ⟨⟨1⟩, "mark.Checked", .recordKind, [], none, [], none, false, true⟩,
    ⟨⟨2⟩, "mark.Plain", .recordKind, [], none, [], none, false, true⟩,
    ⟨⟨3⟩, "shape.Parent", .classType, [], some ⟨⟨0⟩, []⟩, [], none, false, true⟩,
    ⟨⟨4⟩, "shape.Child", .classType, [], some ⟨⟨3⟩, []⟩, [], none, false, true⟩]
    [⟨⟨0⟩, "on", ⟨1⟩, .everyone, [], .type, none, none⟩]
    [(.type ⟨3⟩, (Record.ofKind ⟨1⟩).set "on" (.type ⟨3⟩)), (.type ⟨4⟩, .ofKind ⟨1⟩),
      (.type ⟨4⟩, .ofKind ⟨2⟩)]
  settings := {}

theorem unread_acyclic : unread.catalog.AcyclicFrom TypeDecl.superLinks ⟨4⟩ := by
  have descends : unread.catalog.Descends TypeDecl.superLinks TypeId.index := by decide
  exact (descends.grounded rfl).acyclic

theorem unread_disciplined_iff :
    (∀ (σ ο : Type) (visitor : Visitor σ ο) (history : List Operation),
      Disciplined unread.catalog ⟨4⟩ (Event.found
        (Scan.logAfter ⟨unread, visitor, fun _ => false⟩ history .inherited (.type ⟨4⟩)))) ↔
      unread.SettlesOwn ⟨4⟩ :=
  inherited_disciplined_iff unread unread_acyclic

/-- The record of the superclass takes the claim of the one that cannot be read. -/
theorem unread_undisciplined :
    unread.catalog.AcyclicFrom TypeDecl.superLinks ⟨4⟩ ∧
      ¬Disciplined unread.catalog ⟨4⟩ (Event.found
        (Scan.logAfter ⟨unread, Visitor.levels, fun _ => false⟩ [] .inherited (.type ⟨4⟩))) := by
  refine ⟨unread_acyclic, fun disciplined => ?_⟩
  let scan : Scan (List Level) (List Level) := ⟨unread, .levels, fun _ => false⟩
  have events : Scan.logAfter ⟨unread, Visitor.levels, fun _ => false⟩ [] .inherited (.type ⟨4⟩) =
      scan.terrain.events scan.depth .inherited (.type ⟨4⟩) :=
    scan.logAfter_of_patient [] .inherited (.type ⟨4⟩) Visitor.levels_patient
  have spilled : (Event.found (scan.terrain.events scan.depth .inherited (.type ⟨4⟩))).any
      (fun f => f.source = .type ⟨3⟩ ∧ f.record.kind = ⟨1⟩) = true := by decide +kernel
  obtain ⟨f, member, holds⟩ := List.any_eq_true.mp spilled
  obtain ⟨place, kind⟩ := of_decide_eq_true holds
  rw [events] at disciplined
  have inherited := disciplined.inherited f member (by rw [place]; decide)
  rw [kind] at inherited
  exact absurd inherited (by decide)

end Scanner

end Lineage
