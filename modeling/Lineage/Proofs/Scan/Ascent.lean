import Lineage.Proofs.Scan.Trace

namespace Lineage

variable {id : TypeId} {member d : MemberDecl}

def MemberDecl.original? (d : MemberDecl) : Option MemberId := d.bridgeOf.filter (· != d.id)

theorem MemberDecl.of_original? {original : MemberId} (known : d.original? = some original) :
    d.bridgeOf = some original ∧ original ≠ d.id := by
  obtain ⟨bridge, other⟩ := Option.filter_eq_some_iff.mp known
  exact ⟨bridge, bne_iff_ne.mp other⟩

theorem MemberDecl.getD_original? (d : MemberDecl) :
    d.original?.getD d.id = d.bridgeOf.getD d.id := by
  unfold original?
  cases d.bridgeOf with
  | none => rfl
  | some original =>
    rw [Option.filter_some, Option.getD_some]
    split
    · rfl
    · rename_i self
      rw [bne_iff_ne, not_not] at self
      exact self.symm

namespace Scanner

/-- How a member is shown: its declared records and, if it is shown for another too, in a second
    call those of the other, with a hole for each that was among them. -/
def calls (s : Scanner) (other : MemberDecl → Option MemberId) (level : Nat) (d : MemberDecl) :
    List Event :=
  let own := s.slotsOf (.member d.id)
  .records level (.member d.id) own :: (other d).toList.map fun original =>
    .records level (.member d.id)
      ((s.slotsOf (.member original)).map fun slot => if own.contains slot then none else slot)

def memberCalls (s : Scanner) (other : MemberDecl → Option MemberId) (member : MemberDecl)
    (level : Nat) (id : TypeId) : List Event :=
  if s.plain id then [] else (s.shownOn member id).flatMap (s.calls other level)

/-- What a search for the members that a member overrides relies on: what is above the declaring
    type is present and in no cycle, the root is nobody's interface, and every bridge that is shown
    stands for a member of a present type. -/
structure Searchable (s : Scanner) (member : MemberDecl) : Prop where
  built : s.catalog.Built
  known : s.catalog.memberDecl member.id = .ok member
  notPrivate : member.isPrivate = false
  grounded : s.catalog.Grounded TypeDecl.above member.declaring
  rootApart : ∀ id decl, s.catalog.Reaches TypeDecl.above member.declaring id →
    s.catalog.type? id = some decl → Catalog.root ∉ decl.interfaces.map (·.target)
  bridges : ∀ id, s.catalog.Reaches TypeDecl.above member.declaring id →
    ∀ d ∈ s.shownOn member id, ∀ original, d.bridgeOf = some original →
      ∃ o, s.catalog.memberDecl original = .ok o ∧ s.catalog.isPresent o.declaring = true

end Scanner

theorem Course.advance_if_bind (called : Bool) (rest : Course Unit) :
    ((if called then advance else pure ()) >>= fun _ => rest) =
      if called then advance >>= fun _ => rest else rest := by
  cases called <;> rfl

namespace Terrain

open Course

variable {t : Terrain}

section

variable (unfiltered : ∀ id, t.rejects id = false)
include unfiltered

theorem memberRecords_run (known : t.scanner.catalog.memberDecl d.id = .ok d)
    (present : t.scanner.catalog.isPresent d.declaring = true)
    (bridges : ∀ original, d.bridgeOf = some original → ∃ o,
      t.scanner.catalog.memberDecl original = .ok o ∧
        t.scanner.catalog.isPresent o.declaring = true) (index level : Nat) :
    (t.memberRecords level d.id).run index =
      ⟨.ok (), index, t.scanner.calls MemberDecl.original? level d⟩ := by
  have own := Scanner.freshSlots_of_loaded (s := t.scanner)
    (Catalog.loadElement_member_of_present known present)
  have target : t.scanner.catalog.bridged d.id = .ok (d.original?.getD d.id) := by
    rw [Catalog.bridged_of_known known, MemberDecl.getD_original?]
  simp only [memberRecords, declared_unfiltered unfiltered, own, target, ask_ok, Scanner.calls]
  cases original : d.original? with
  | none =>
    simp only [Option.getD_none, ↓reduceIte]
    rfl
  | some other =>
    obtain ⟨bridge, different⟩ := MemberDecl.of_original? original
    obtain ⟨o, knownToo, presentToo⟩ := bridges other bridge
    have others := Scanner.freshSlots_of_loaded (s := t.scanner)
      (Catalog.loadElement_member_of_present knownToo presentToo)
    simp only [Option.getD_some, different, ↓reduceIte, others, ask_ok]
    rfl

omit unfiltered in
/-- Of some members those that are overridden are shown, in order. -/
theorem showOverridden_run {ds : List MemberDecl} (level : Nat) (called : Bool)
    (each : ∀ d ∈ ds, ∃ answer, t.scanner.catalog.overrides member.id d.id = .ok answer ∧
      (answer = true → (do t.memberRecords (← index) d.id : Course Unit).run level =
        ⟨.ok (), level, t.scanner.calls MemberDecl.original? level d⟩)) :
    let overridden := ds.filter fun d => t.scanner.catalog.overrides member.id d.id = .ok true
    (t.showOverridden member.id called (ds.map (·.id))).run level =
      ⟨.ok (called || !overridden.isEmpty), level,
        overridden.flatMap (t.scanner.calls MemberDecl.original? level)⟩ := by
  induction ds generalizing called with
  | nil =>
    rw [List.map_nil, showOverridden, run_pure]
    simp
  | cons d rest ih =>
    have later (called : Bool) :=
      ih called fun other listed => each other (List.mem_cons_of_mem _ listed)
    obtain ⟨answer, asked, shown⟩ := each d List.mem_cons_self
    simp only [List.map_cons, showOverridden, asked, ask_ok]
    cases answer with
    | false =>
      rw [if_neg Bool.false_ne_true, later, List.filter_cons_of_neg (by simp [asked])]
    | true =>
      have first := shown rfl
      rw [if_pos rfl, ← bind_assoc, run_bind_of_ok (congrArg Passage.answer first), first, later,
        List.filter_cons_of_pos (by simp [asked])]
      simp

section

variable (searchable : t.scanner.Searchable member)
  (reached : t.scanner.catalog.Reaches TypeDecl.above member.declaring id)
  (inner : id = member.declaring ∨ id ≠ Catalog.root)
include searchable reached inner

theorem memberLevel_run (notPlain : t.scanner.plain id = false) (level : Nat) :
    (t.memberLevel member.id member.declaring id).run level =
      ⟨.ok (!(t.scanner.shownOn member id).isEmpty), level,
        (t.scanner.shownOn member id).flatMap (t.scanner.calls MemberDecl.original? level)⟩ := by
  have bridges := searchable.bridges id reached
  have present := searchable.grounded.here
  unfold memberLevel
  unfold Scanner.shownOn at bridges ⊢
  split
  · rename_i own
    rw [if_pos own] at bridges
    have first : (do t.memberRecords (← index) member.id : Course Unit).run level =
        ⟨.ok (), level, t.scanner.calls MemberDecl.original? level member⟩ :=
      memberRecords_run unfiltered searchable.known present
        (bridges member (List.mem_singleton_self member)) level level
    rw [← bind_assoc, run_bind_of_ok (congrArg Passage.answer first), first]
    simp [run_pure]
  · rename_i other
    rw [if_neg other] at bridges
    have notRoot := inner.resolve_left other
    have aligned := searchable.built.aligned
    have grounded := searchable.grounded.reached reached
    have asked : t.candidates id = pure ((t.scanner.candidates id).map (·.id)) := by
      rw [candidates, unfiltered, if_neg Bool.false_ne_true,
        Scanner.freshMembers_of_grounded aligned grounded notRoot notPlain]
      rfl
    rw [asked, pure_bind]
    refine (showOverridden_run level false fun d listed => ?_).trans (by rw [Bool.false_or])
    obtain ⟨known, presentToo⟩ := Scanner.declaring_of_mem_candidates aligned grounded listed
    obtain ⟨answer, asked⟩ := Catalog.overrides_answers searchable.known present
      searchable.grounded.known known presentToo
    refine ⟨answer, asked, fun overridden => ?_⟩
    rw [overridden] at asked
    exact memberRecords_run unfiltered known presentToo
      (bridges d (List.mem_filter.mpr ⟨listed, decide_eq_true asked⟩)) level level

/-- The level of a walk for a member, with the step to the next if something was shown. -/
theorem memberVisit_run (notPlain : t.scanner.plain id = false) (level : Nat) :
    (do
      let called ← t.memberLevel member.id member.declaring id
      if called then advance else pure () : Course Unit).run level =
      ⟨.ok (),
        if (t.scanner.memberCalls MemberDecl.original? member level id).isEmpty then level
        else level + 1,
        t.scanner.memberCalls MemberDecl.original? member level id⟩ := by
  have ran := memberLevel_run unfiltered searchable reached inner notPlain level
  have silent : ((t.scanner.shownOn member id).flatMap
      (t.scanner.calls MemberDecl.original? level)).isEmpty =
        (t.scanner.shownOn member id).isEmpty := by
    cases t.scanner.shownOn member id <;> rfl
  rw [run_bind_of_ok (congrArg Passage.answer ran), ran, Scanner.memberCalls, notPlain,
    if_neg Bool.false_ne_true, silent]
  cases (t.scanner.shownOn member id).isEmpty with
  | true => simp [run_pure]
  | false => simp [advance]

theorem memberFrom_traces {fuel : Nat} (enough : t.scanner.catalog.rank TypeDecl.above id ≤ fuel) :
    Traces (t.scanner.memberCalls MemberDecl.original? member) (t.memberFrom true member.id fuel id)
      (t.scanner.visited fuel id) := by
  induction fuel generalizing id with
  | zero =>
    have := (searchable.grounded.reached reached).rank_pos
    omega
  | succ fuel ih =>
    have grounded := searchable.grounded.reached reached
    obtain ⟨decl, found, loaded, onward⟩ := grounded.step
    have plain := Scanner.plain_of_found found
    have each (next : TypeId) (edge : next ∈ Scan.Reach.edges ⟨true, false⟩ decl) :
        Traces (t.scanner.memberCalls MemberDecl.original? member)
          (t.memberFrom true member.id fuel next) (t.scanner.visited fuel next) := by
      have above := edges_subset_above decl edge
      have lower := (onward next above).2
      -- the root has no candidates, but no edge leads there
      refine ih (reached.tail ⟨decl, found, above⟩) (.inr ?_) (by omega)
      rw [edges_of_hierarchy, List.mem_append] at edge
      rcases edge with sideways | upward
      · rintro rfl
        exact searchable.rootApart id decl reached found sideways
      · exact bne_iff_ne.mp (List.mem_filter.mp upward).2
    have walked := hierarchy_traces (t.scanner.memberCalls MemberDecl.original? member)
      (t.memberFrom true member.id fuel) (t.scanner.visited fuel)
      (do
        let called ← t.memberLevel member.id member.declaring id
        if called then advance else pure ()) (.member member.id) loaded
      (fun next above => (onward next above).1.here)
      (fun isPlain level => by rw [Scanner.memberCalls, plain, isPlain, if_pos rfl])
      (fun isPlain level =>
        memberVisit_run unfiltered searchable reached inner (plain.trans isPlain) level) each
    simp only [bind_assoc, advance_if_bind] at walked
    simp only [Scanner.visited, found, memberFrom, searchable.known, ask_ok, searchable.notPrivate,
      Bool.false_eq_true, ↓reduceIte]
    exact walked

end

end

end Terrain

namespace Scanner

variable {s : Scanner}

theorem searchable_of_checks {height : TypeId → Nat} (built : s.catalog.Built)
    (known : s.catalog.memberDecl member.id = .ok member) (notPrivate : member.isPrivate = false)
    (descends : s.catalog.Descends TypeDecl.above height)
    (present : s.catalog.isPresent member.declaring = true)
    (rootApart : ∀ decl ∈ s.catalog.types, Catalog.root ∉ decl.interfaces.map (·.target))
    (bridges : ∀ d ∈ s.catalog.members, ∀ original ∈ d.bridgeOf,
      (s.catalog.member? original).any fun o => s.catalog.isPresent o.declaring) :
    s.Searchable member := by
  have grounded := descends.grounded present
  refine ⟨built, known, notPrivate, grounded, fun id decl _ found =>
    rootApart decl (List.mem_of_getElem? found), fun id reached d shown original bridge => ?_⟩
  have listed : d ∈ s.catalog.members := by
    unfold shownOn at shown
    split at shown
    · rw [List.mem_singleton.mp shown]
      exact Catalog.mem_members_of_memberDecl known
    · have known := (declaring_of_mem_candidates built.aligned (grounded.reached reached)
        (List.mem_filter.mp shown).1).1
      exact Catalog.mem_members_of_memberDecl known
  obtain ⟨o, found, there⟩ := (Option.any_eq_true _ _).mp (bridges d listed original bridge)
  exact ⟨o, by rw [Catalog.memberDecl, found], there⟩

end Scanner

namespace Scan

variable {σ ο : Type}

/-- A walk for a member visits what a walk of its declaring type visits, in the same order, and shows
    on each type that is not plain the member itself or those that it overrides. Where `other` names
    a member beside one that is shown, the records of that come in a second call. -/
def ShowsOverridden (s : Scan σ ο) (history : List Operation) (member : MemberDecl)
    (other : MemberDecl → Option MemberId) : Prop :=
  ∃ above ways, member.declaring ∉ above ∧
    s.scanner.WaysInOrder ⟨true, false⟩ member.declaring ways ∧
    (member.declaring :: above).filter (!s.scanner.plain ·) = ways.map Prod.snd ∧
    s.logAfter history .hierarchy (.type member.declaring) =
      trace s.scanner.typeCalls 0 (member.declaring :: above) ∧
    s.logAfter history .hierarchy (.member member.id) =
      trace (s.scanner.memberCalls other member) 0 (member.declaring :: above)

/-- Bridges are shown for the members they stand for as well, but not for themselves. -/
theorem member_walk_shows_overridden (s : Scan σ ο) (history : List Operation)
    (unfiltered : ∀ id, s.rejects id = false) (patient : s.visitor.Patient)
    (searchable : s.scanner.Searchable member) :
    s.ShowsOverridden history member MemberDecl.original? := by
  have grounded := searchable.grounded
  have enough : s.scanner.catalog.rank TypeDecl.above member.declaring ≤ s.depth :=
    Catalog.rank_le_typeCount.trans s.typeCount_le_depth
  obtain ⟨above, visited, apart⟩ := Scanner.visited_eq grounded enough
  have types := Terrain.typeFrom_traces (t := s.terrain) unfiltered grounded enough
  have members := Terrain.memberFrom_traces (t := s.terrain) unfiltered searchable .refl (.inl rfl)
    enough
  have memberCourse : s.terrain.course s.depth .hierarchy (.member member.id) =
      s.terrain.memberFrom true member.id s.depth member.declaring := by
    show s.terrain.memberUpward true s.depth member.id = _
    have known : s.terrain.scanner.catalog.memberDecl member.id = .ok member := searchable.known
    rw [Terrain.memberUpward, known]
  refine ⟨above, s.scanner.ways ⟨true, false⟩ s.depth member.declaring, apart,
    Scanner.ways_inOrder_of_covers edges_subset_above grounded enough, ?_, ?_, ?_⟩
  · rw [← visited, Scanner.visited_eq_ways]
  · rw [s.logAfter_of_patient history .hierarchy _ patient, ← visited]
    exact congrArg Passage.events (types 0)
  · rw [s.logAfter_of_patient history .hierarchy _ patient, ← visited, Terrain.events, memberCourse]
    exact congrArg Passage.events (members 0)

def shelf : Scan (List Level) (List Level) where
  scanner := ⟨.ofDecls [Catalog.rootDecl,
    ⟨⟨1⟩, "mark.Seen", .recordKind, [], none, [], none, false, true⟩,
    ⟨⟨2⟩, "mark.Kept", .recordKind, [], none, [], none, false, true⟩,
    ⟨⟨3⟩, "shape.Store", .interface, [], none, [], none, false, true⟩,
    ⟨⟨4⟩, "shape.Base", .classType, [], some ⟨⟨0⟩, []⟩, [], none, false, true⟩,
    ⟨⟨5⟩, "shape.Low", .classType, [], some ⟨⟨4⟩, []⟩, [⟨⟨3⟩, []⟩], none, false, true⟩]
    [⟨⟨0⟩, "save", ⟨3⟩, .everyone, [], .void, none, none⟩,
    ⟨⟨1⟩, "put", ⟨4⟩, .everyone, [], .void, none, none⟩,
    ⟨⟨2⟩, "save", ⟨4⟩, .everyone, [], .void, none, some ⟨1⟩⟩,
    ⟨⟨3⟩, "save", ⟨5⟩, .everyone, [], .void, none, none⟩]
    [(.member ⟨0⟩, .ofKind ⟨1⟩), (.member ⟨1⟩, .ofKind ⟨1⟩), (.member ⟨1⟩, .ofKind ⟨2⟩),
      (.member ⟨2⟩, .ofKind ⟨1⟩)], {}⟩
  visitor := .levels
  rejects _ := false

theorem shelf_built : shelf.scanner.catalog.Built := by
  have kinds := (Catalog.Built.initial.define { name := "mark.Seen", flavor := .recordKind }).define
    { name := "mark.Kept", flavor := .recordKind }
  have types := ((kinds.define { name := "shape.Store", flavor := .interface }).define
    { name := "shape.Base", flavor := .classType }).define
    { name := "shape.Low", flavor := .classType, superclass := some ⟨⟨4⟩, []⟩,
      interfaces := [⟨⟨3⟩, []⟩] }
  have onStore := types.addMember ⟨3⟩ { name := "save", records := [.ofKind ⟨1⟩] } rfl
  have original := onStore.addMember ⟨4⟩
    { name := "put", records := [.ofKind ⟨1⟩, .ofKind ⟨2⟩] } rfl
  have bridge := original.addMember ⟨4⟩
    { name := "save", bridgeOf := some ⟨1⟩, records := [.ofKind ⟨1⟩] } rfl
  exact bridge.addMember ⟨5⟩ { name := "save" } rfl

theorem shelf_shows_overridden :
    shelf.ShowsOverridden [.clear] ⟨⟨3⟩, "save", ⟨5⟩, .everyone, [], .void, none, none⟩
      MemberDecl.original? := by
  have descends : shelf.scanner.catalog.Descends TypeDecl.above TypeId.index := by decide
  have searchable : shelf.scanner.Searchable ⟨⟨3⟩, "save", ⟨5⟩, .everyone, [], .void, none, none⟩ :=
    Scanner.searchable_of_checks shelf_built rfl rfl descends rfl (by decide) (by decide)
  exact member_walk_shows_overridden shelf [.clear] (fun _ => rfl) Visitor.levels_patient searchable

example : shelf.scanner.memberCalls MemberDecl.original?
    ⟨⟨3⟩, "save", ⟨5⟩, .everyone, [], .void, none, none⟩ 2 ⟨4⟩ =
      [.records 2 (.member ⟨2⟩) [some (.ofKind ⟨1⟩)],
        .records 2 (.member ⟨2⟩) [none, some (.ofKind ⟨2⟩)]] := rfl

def mirror : Scan (List Level) (List Level) where
  scanner := ⟨.ofDecls [Catalog.rootDecl,
    ⟨⟨1⟩, "mark.Seen", .recordKind, [], none, [], none, false, true⟩,
    ⟨⟨2⟩, "shape.Holder", .classType, [], some ⟨⟨0⟩, []⟩, [], none, false, true⟩]
    [⟨⟨0⟩, "save", ⟨2⟩, .everyone, [], .void, none, some ⟨0⟩⟩]
    [(.member ⟨0⟩, .ofKind ⟨1⟩)], {}⟩
  visitor := .levels
  rejects _ := false

theorem mirror_searchable :
    mirror.scanner.Searchable ⟨⟨0⟩, "save", ⟨2⟩, .everyone, [], .void, none, some ⟨0⟩⟩ := by
  have types := (Catalog.Built.initial.define { name := "mark.Seen", flavor := .recordKind }).define
    { name := "shape.Holder", flavor := .classType }
  have built : mirror.scanner.catalog.Built := types.addMember ⟨2⟩
    { name := "save", bridgeOf := some ⟨0⟩, records := [.ofKind ⟨1⟩] } rfl
  have descends : mirror.scanner.catalog.Descends TypeDecl.above TypeId.index := by decide
  exact Scanner.searchable_of_checks built rfl rfl descends rfl (by decide) (by decide)

/-- A bridge for itself is not shown in a second call. -/
theorem mirror_shown_once :
    mirror.scanner.Searchable ⟨⟨0⟩, "save", ⟨2⟩, .everyone, [], .void, none, some ⟨0⟩⟩ ∧
      mirror.visitor.Patient ∧ (∀ type, mirror.rejects type = false) ∧
      ¬mirror.ShowsOverridden [] ⟨⟨0⟩, "save", ⟨2⟩, .everyone, [], .void, none, some ⟨0⟩⟩
        (·.bridgeOf) := by
  refine ⟨mirror_searchable, Visitor.levels_patient, fun _ => rfl, ?_⟩
  rintro ⟨above, ways, _, _, _, _, shown⟩
  rw [mirror.logAfter_of_patient [] .hierarchy _ Visitor.levels_patient] at shown
  have seen : (mirror.terrain.events mirror.depth .hierarchy (.member ⟨0⟩)).length = 2 := rfl
  have claimed : (mirror.scanner.memberCalls (·.bridgeOf)
      ⟨⟨0⟩, "save", ⟨2⟩, .everyone, [], .void, none, some ⟨0⟩⟩ 0 ⟨2⟩).length = 2 := rfl
  rw [shown, trace, List.length_append, List.length_cons, claimed] at seen
  omega

end Scan

end Lineage
