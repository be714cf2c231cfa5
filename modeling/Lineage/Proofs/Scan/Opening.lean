import Lineage.Proofs.Scan.Paths
import Lineage.Proofs.Scan.Rungs

namespace Lineage

namespace Course

variable {α β : Type}

theorem prefix_bind (c : Course α) (next : α → Course β) (i : Nat) :
    (c.run i).events <+: ((c >>= next).run i).events := by
  cases ended : (c.run i).answer with
  | error e => rw [run_bind_of_error ended]
  | ok a =>
    rw [run_bind_of_ok ended]
    exact List.prefix_append _ _

theorem prefix_contain (on : Element) (c : Course Unit) (i : Nat) :
    (c.run i).events <+: ((c.contain on).run i).events := by
  cases ended : (c.run i).answer with
  | ok u => rw [run_contain_of_ok ended]
  | error e =>
    rw [run_contain_of_error ended]
    exact List.prefix_append _ _

end Course

namespace Catalog

theorem Acyclic.superLinks {c : Catalog} (acyclic : c.Acyclic) (id : TypeId) :
    c.AcyclicFrom TypeDecl.superLinks id := by
  intro a _ cycle
  have wider : c.Leads TypeDecl.superLinks ≤ c.Leads TypeDecl.links := by
    rintro x y ⟨decl, found, linked⟩
    exact ⟨decl, found, List.mem_append_left _ (List.mem_append_right _ linked)⟩
  exact acyclic a (Relation.TransGen.mono wider a a cycle)

end Catalog

namespace Scanner

/-- What an inherited walk has to know before it shows its source: whether there is a hierarchy and,
    if there is one and a record to show, all superclasses. -/
def Prepared (s : Scanner) (source : TypeId) : Prop :=
  ∃ alone, s.catalog.isWithoutHierarchy .inherited (.type source) = .ok alone ∧
    (alone = false → s.slotsOf (.type source) ≠ [] → ∃ types, s.catalog.Chain source types)

end Scanner

namespace Terrain

open Course

variable {t : Terrain} {source : TypeId} {slots : List Slot}

section

variable (shown : t.shown (.type source) = .ok slots)
include shown

theorem element_opens : [.enter 0, .records 0 (.type source) slots] <+:
    ((t.element (.type source)).run 0).events := by
  unfold element
  rw [declared_eq_ask, shown]
  exact prefix_contain (.type source) (do enter 0; deliver 0 (.type source) slots) 0

theorem typeFrom_opens (notPlain : t.scanner.isPlainType source = .ok false) (reach : Scan.Reach)
    (fuel : Nat) : [.enter 0, .records 0 (.type source) slots] <+:
      ((t.typeFrom reach (fuel + 1) source).run 0).events := by
  let walk := t.typeFrom reach fuel
  let rest : Course Unit := do
    advance
    t.sideways reach.interfaces walk source
    t.upward walk source
    t.outward reach.enclosing walk source
  let whole : Course Unit := do
    enter (← index)
    deliver (← index) (.type source) slots
    rest
  have opens : [.enter 0, .records 0 (.type source) slots] <+: (whole.run 0).events :=
    List.prefix_append _ (rest.run 0).events
  have body : t.typeFrom reach (fuel + 1) source = contain (.type source) whole := by
    unfold typeFrom
    rw [notPlain, declared_eq_ask, shown]
    rfl
  rw [body]
  exact opens.trans (prefix_contain _ whole 0)

end

section

variable (unfiltered : ∀ id, t.rejects id = false)
  (present : t.scanner.catalog.isPresent source = true)
  (notPlain : t.scanner.isPlainType source = .ok false)
include unfiltered present

/-- The first level of an inherited walk shows all records of its source, if all that are visible on
    it can be found. -/
theorem inheritedLevel_opens (index : Nat) {visible : List Record}
    (known : t.scanner.slotsOf (.type source) ≠ [] →
      t.scanner.catalog.visibleRecords source = .ok visible) :
    ∃ after, (t.inheritedLevel source source index none).run 0 =
      ⟨.ok after, 0, [.records index (.type source) (t.scanner.slotsOf (.type source))]⟩ := by
  rw [inheritedLevel_eq (unfiltered _) present, claimsFor]
  cases declares : t.scanner.slotsOf (.type source) with
  | nil => exact ⟨none, rfl⟩
  | cons slot rest =>
    have visibleHere := known (by rw [declares]; exact List.cons_ne_nil _ _)
    have covered (kind : TypeId) : tally kind (t.scanner.kept source) ≤ tally kind visible :=
      (List.Sublist.countP_le List.filter_sublist).trans
        (Catalog.prefix_visibleRecords visibleHere).sublist.countP_le
    have all : ((Scan.Claims.ofRecords visible).claimAll (slot :: rest)).1 = slot :: rest := by
      refine Scan.Claims.claimAll_of_covered fun kind => ?_
      rw [← declares, Scanner.filterMap_slotsOf, Scan.Claims.left_ofRecords]
      exact covered kind
    let claimed := (Scan.Claims.ofRecords visible).claimAll (slot :: rest)
    refine ⟨some claimed.2, ?_⟩
    rw [visibleHere]
    show Passage.mk (.ok (some claimed.2)) 0 [.records index (.type source) claimed.1] = _
    rw [all]

theorem inheritedLevel_of_unknown (declares : t.scanner.slotsOf (.type source) ≠ []) {e : QueryError}
    (unknown : t.scanner.catalog.visibleRecords source = .error e) (index : Nat) :
    t.inheritedLevel source source index none = ask (.error e) := by
  rw [inheritedLevel_eq (unfiltered _) present, claimsFor, unknown]
  cases slots : t.scanner.slotsOf (.type source) with
  | nil => exact absurd slots declares
  | cons slot rest => rfl

include notPlain

theorem inheritedFrom_opens (below : source ≠ Catalog.root) (fuel : Nat) {visible : List Record}
    (known : t.scanner.slotsOf (.type source) ≠ [] →
      t.scanner.catalog.visibleRecords source = .ok visible) :
    [.enter 0, .records 0 (.type source) (t.scanner.slotsOf (.type source))] <+:
      ((t.inheritedFrom source (fuel + 1) source 0 none).run 0).events := by
  obtain ⟨after, ran⟩ := inheritedLevel_opens unfiltered present 0 known
  obtain ⟨onward, body⟩ : ∃ onward : Option Scan.Claims → Course Unit,
      t.inheritedFrom source (fuel + 1) source 0 none = contain (.type source) (do
        enter 0
        onward (← t.inheritedLevel source source 0 none)) := by
    unfold inheritedFrom
    rw [notPlain]
    simp only [below, decide_false, Option.any_none, Bool.or_false, Bool.false_eq_true, ↓reduceIte,
      ask_ok]
    exact ⟨_, rfl⟩
  let whole : Course Unit := do
    enter 0
    onward (← t.inheritedLevel source source 0 none)
  have entered : (whole.run 0).events =
      .enter 0 :: ((t.inheritedLevel source source 0 none >>= onward).run 0).events := rfl
  have opens : [.enter 0, .records 0 (.type source) (t.scanner.slotsOf (.type source))] <+:
      (whole.run 0).events := by
    have shown := prefix_bind (t.inheritedLevel source source 0 none) onward 0
    rw [ran] at shown
    rw [entered]
    exact (List.prefix_cons_inj _).mpr shown
  rw [body]
  exact opens.trans (prefix_contain _ whole 0)

theorem inheritedType_opens (prepared : t.scanner.Prepared source)
    (acyclic : t.scanner.catalog.AcyclicFrom TypeDecl.superLinks source) (fuel : Nat) :
    [.enter 0, .records 0 (.type source) (t.scanner.slotsOf (.type source))] <+:
      ((t.inheritedType (fuel + 1) source).run 0).events := by
  obtain ⟨alone, asked, climbs⟩ := prepared
  unfold inheritedType
  rw [asked, ask_ok]
  cases alone with
  | true =>
    have shown := (shown_of_unfiltered unfiltered (.type source)).trans
      (Scanner.freshSlots_of_present present)
    exact (element_opens shown).trans (prefix_contain _ (t.element (.type source)) 0)
  | false =>
    have below : source ≠ Catalog.root := by
      rintro rfl
      cases asked
    have opens : [.enter 0, .records 0 (.type source) (t.scanner.slotsOf (.type source))] <+:
        ((t.inheritedFrom source (fuel + 1) source 0 none).run 0).events := by
      by_cases declares : t.scanner.slotsOf (.type source) = []
      · have known : t.scanner.slotsOf (.type source) ≠ [] →
            t.scanner.catalog.visibleRecords source = .ok [] := fun some => absurd declares some
        exact inheritedFrom_opens unfiltered present notPlain below fuel known
      · obtain ⟨types, chain⟩ := climbs rfl declares
        exact inheritedFrom_opens unfiltered present notPlain below fuel
          fun _ => Catalog.visibleRecords_of_chain chain acyclic
    exact opens.trans (prefix_contain _ (t.inheritedFrom source (fuel + 1) source 0 none) 0)

theorem inheritedType_silent (unprepared : ¬t.scanner.Prepared source)
    (acyclic : t.scanner.catalog.AcyclicFrom TypeDecl.superLinks source) (fuel : Nat) :
    Event.deliveries ((t.inheritedType (fuel + 1) source).run 0).events = [] := by
  unfold inheritedType
  cases asked : t.scanner.catalog.isWithoutHierarchy .inherited (.type source) with
  | error e => rfl
  | ok alone =>
    cases alone with
    | true => exact absurd ⟨true, asked, fun impossible => by cases impossible⟩ unprepared
    | false =>
      have declares : t.scanner.slotsOf (.type source) ≠ [] := fun bare =>
        unprepared ⟨false, asked, fun _ declares => absurd bare declares⟩
      cases known : t.scanner.catalog.visibleRecords source with
      | ok visible =>
        exact absurd ⟨false, asked, fun _ _ => Catalog.chain_of_visibleRecords known acyclic⟩
          unprepared
      | error e =>
        unfold inheritedFrom
        rw [notPlain, inheritedLevel_of_unknown unfiltered present declares known]
        simp only [Option.any_none, Bool.or_false, decide_eq_true_eq]
        split <;> rfl

end

end Terrain

namespace Scan

variable {σ ο : Type} (s : Scan σ ο) (history : List Operation) (strategy : Strategy)

theorem head?_deliveries_of_opens {source : Element} {slots : List Slot}
    (waits : (s.visitor.enter 0 s.visitor.start).1 = none)
    (opens : [.enter 0, .records 0 source slots] <+: s.terrain.events s.depth strategy source) :
    (Event.deliveries (s.logAfter history strategy source)).head? = some ⟨0, source, slots⟩ := by
  obtain ⟨rest, events⟩ := opens
  rw [logAfter_eq, watched, ← events]
  rcases entered : s.visitor.react (.enter 0) s.visitor.start with ⟨answer, after⟩
  have silent : answer = none := (congrArg Prod.fst entered).symm.trans waits
  subst silent
  rw [List.cons_append, Visitor.watch_cons_of_silence entered]
  rcases shown : s.visitor.react (.records 0 source slots) after with ⟨_ | answer, later⟩
  · rw [List.cons_append, Visitor.watch_cons_of_silence shown]
    rfl
  · rw [List.cons_append, Visitor.watch_cons_of_answer shown]
    rfl

theorem deliveries_of_silent {source : Element}
    (silent : Event.deliveries (s.terrain.events s.depth strategy source) = []) :
    Event.deliveries (s.logAfter history strategy source) = [] := by
  obtain ⟨rest, split⟩ := s.logAfter_prefix history strategy source
  rw [← split, Event.deliveries_append] at silent
  exact (List.append_eq_nil_iff.mp silent).1

def ShowsOwnFirst (source : TypeId) : Prop :=
  ∃ slots, ((s.scanner.declared (.type source)).answered .empty).1 = .ok slots ∧
    (Event.deliveries (s.logAfter history strategy (.type source))).head? =
      some ⟨0, .type source, slots⟩

variable {source : TypeId}

/-- Whatever is missing above or around a type, its own records are shown first, except that an
    inherited walk has to be prepared. -/
theorem own_records_first_iff (acyclic : s.scanner.catalog.Acyclic)
    (unfiltered : ∀ id, s.rejects id = false)
    (waits : (s.visitor.enter 0 s.visitor.start).1 = none)
    (present : s.scanner.catalog.isPresent source = true)
    (notPlain : s.scanner.isPlainType source = .ok false) :
    s.ShowsOwnFirst history strategy source ↔
      (strategy = .inherited → s.scanner.Prepared source) := by
  have declared : ((s.scanner.declared (.type source)).answered .empty).1 =
      .ok (s.scanner.slotsOf (.type source)) := by
    rw [((s.scanner.declared_settles (.type source)).answered (.empty s.scanner)).1,
      Scanner.freshSlots_of_present present]
  have shown : s.terrain.shown (.type source) = .ok (s.scanner.slotsOf (.type source)) := by
    rw [Terrain.shown_of_unfiltered unfiltered]
    exact Scanner.freshSlots_of_present present
  obtain ⟨fuel, deep⟩ := s.exists_depth_eq_succ present
  have acyclic := acyclic.superLinks source
  have first (opens : [.enter 0, .records 0 (.type source) (s.scanner.slotsOf (.type source))] <+:
      s.terrain.events s.depth strategy (.type source)) : s.ShowsOwnFirst history strategy source :=
    ⟨_, declared, s.head?_deliveries_of_opens history strategy waits opens⟩
  have walked (reach : Reach) : [.enter 0, .records 0 (.type source) (s.scanner.slotsOf (.type source))] <+:
      ((s.terrain.typeFrom reach s.depth source).run 0).events := by
    rw [deep]
    exact Terrain.typeFrom_opens shown notPlain reach fuel
  cases strategy with
  | direct => exact ⟨fun _ never => (by cases never), fun _ => first (Terrain.element_opens shown)⟩
  | superclass | hierarchy | enclosing =>
    exact ⟨fun _ never => (by cases never), fun _ => first (walked _)⟩
  | inherited =>
    constructor
    · rintro ⟨slots, _, head⟩ -
      by_contra unprepared
      have silent : Event.deliveries (s.terrain.events s.depth .inherited (.type source)) = [] := by
        show Event.deliveries ((s.terrain.inheritedType s.depth source).run 0).events = []
        rw [deep]
        exact Terrain.inheritedType_silent (t := s.terrain) unfiltered present notPlain unprepared
          acyclic fuel
      rw [s.deliveries_of_silent history .inherited silent] at head
      cases head
    · intro prepared
      refine first ?_
      show _ <+: ((s.terrain.inheritedType s.depth source).run 0).events
      rw [deep]
      exact Terrain.inheritedType_opens (t := s.terrain) unfiltered present notPlain (prepared rfl)
        acyclic fuel

def orphan : Scan (List Level) (List Level) where
  scanner := ⟨.ofDecls [Catalog.rootDecl,
    ⟨⟨1⟩, "mark.Seen", .recordKind, [], none, [], none, false, true⟩,
    ⟨⟨2⟩, "ext.Missing", .classType, [], none, [], none, false, false⟩,
    ⟨⟨3⟩, "shape.Base", .classType, [], some ⟨⟨2⟩, []⟩, [], none, false, true⟩,
    ⟨⟨4⟩, "shape.Low", .classType, [], some ⟨⟨3⟩, []⟩, [], none, false, true⟩]
    [] [(.type ⟨4⟩, .ofKind ⟨1⟩)], {}⟩
  visitor := .levels
  rejects _ := false

theorem orphan_acyclic : orphan.scanner.catalog.Acyclic := by
  have falls : orphan.scanner.catalog.Falls TypeDecl.links TypeId.index := by decide
  exact falls.acyclic

theorem orphan_first_iff : orphan.ShowsOwnFirst [.clear] .inherited ⟨4⟩ ↔
    (Strategy.inherited = .inherited → orphan.scanner.Prepared ⟨4⟩) :=
  own_records_first_iff orphan [.clear] .inherited orphan_acyclic (fun _ => rfl) rfl rfl rfl

/-- A type that is missing further up hides the records of the source from an inherited walk. -/
theorem orphan_hides_own :
    orphan.scanner.catalog.Acyclic ∧ (∀ id, orphan.rejects id = false) ∧ orphan.visitor.Patient ∧
      orphan.scanner.catalog.isPresent ⟨4⟩ = true ∧
      orphan.scanner.isPlainType ⟨4⟩ = .ok false ∧ ¬orphan.ShowsOwnFirst [] .inherited ⟨4⟩ := by
  refine ⟨orphan_acyclic, fun _ => rfl, Visitor.levels_patient, rfl, rfl, ?_⟩
  rintro ⟨slots, _, first⟩
  rw [orphan.logAfter_of_patient [] .inherited _ Visitor.levels_patient] at first
  have silent : Event.deliveries (orphan.terrain.events orphan.depth .inherited (.type ⟨4⟩)) = [] :=
    rfl
  rw [silent] at first
  cases first

end Scan

end Lineage
