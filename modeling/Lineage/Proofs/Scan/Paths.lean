import Lineage.Proofs.Catalog.Built
import Lineage.Proofs.Scan.Itinerary

namespace Lineage

variable {id : TypeId}

def Scan.Reach.edges (reach : Scan.Reach) (d : TypeDecl) : List TypeId :=
  (if reach.interfaces then d.interfaces.map (·.target) else []) ++
    d.superLinks.filter (· != Catalog.root) ++
    (if reach.enclosing then d.enclosing.toList else [])

def Strategy.reach? : Strategy → Option Scan.Reach
  | .direct | .inherited => none
  | .superclass => some ⟨false, false⟩
  | .hierarchy => some ⟨true, false⟩
  | .enclosing => some ⟨true, true⟩

theorem Scan.Reach.edges_subset (reach : Scan.Reach) (d : TypeDecl) : reach.edges d ⊆ d.links := by
  intro next member
  simp only [edges, TypeDecl.links, List.mem_append] at member ⊢
  rcases member with (member | member) | member
  · split at member
    · exact .inl (.inl member)
    · cases member
  · exact .inl (.inr (List.mem_filter.mp member).1)
  · split at member
    · exact .inr member
    · cases member

namespace Scanner

variable {s : Scanner} {reach : Scan.Reach} {links : TypeDecl → List TypeId}

/-- A path that turns at each type to the edge at some position and passes through no plain type. -/
inductive Way (s : Scanner) (reach : Scan.Reach) : TypeId → List Nat → TypeId → Prop
  | here {id : TypeId} : s.isPlainType id = .ok false → Way s reach id [] id
  | turn {id next last : TypeId} {decl : TypeDecl} {position : Nat} {path : List Nat} :
    s.isPlainType id = .ok false → s.catalog.type? id = some decl →
    (reach.edges decl)[position]? = some next → Way s reach next path last →
    Way s reach id (position :: path) last

/-- The ways from a type, each before those that it begins and before those that part from it at a
    later edge. -/
structure WaysInOrder (s : Scanner) (reach : Scan.Reach) (id : TypeId)
    (ways : List (List Nat × TypeId)) : Prop where
  all : ∀ path last, (path, last) ∈ ways ↔ s.Way reach id path last
  ordered : ways.Pairwise fun a b => List.Lex (· < ·) a.1 b.1

def ways (s : Scanner) (reach : Scan.Reach) : Nat → TypeId → List (List Nat × TypeId)
  | 0, _ => []
  | fuel + 1, id =>
    match s.catalog.type? id with
    | none => []
    | some decl =>
      if s.settings.isPlainName decl.name then []
      else ([], id) :: (reach.edges decl).zipIdx.flatMap fun (next, position) =>
        (ways s reach fuel next).map fun (path, last) => (position :: path, last)

theorem Way.notPlain {path : List Nat} {last : TypeId} (way : s.Way reach id path last) :
    s.isPlainType id = .ok false := by
  cases way with
  | here notPlain => exact notPlain
  | turn notPlain _ _ _ => exact notPlain

theorem ends_of_turns (edges : List TypeId) (further : TypeId → List (List Nat × TypeId)) :
    (edges.zipIdx.flatMap fun (next, position) =>
        (further next).map fun (path, last) => (position :: path, last)).map Prod.snd =
      edges.flatMap fun next => (further next).map Prod.snd := by
  have kept (next : TypeId) (position : Nat) :
      ((further next).map fun (path, last) => (position :: path, last)).map Prod.snd =
        (further next).map Prod.snd := by
    rw [List.map_map]
    rfl
  have forgetful :=
    List.flatMap_map Prod.fst (fun next => (further next).map Prod.snd) edges.zipIdx
  rw [List.map_flatMap]
  simp only [kept]
  rw [← forgetful, List.zipIdx_map_fst]

theorem ways_ordered (fuel : Nat) (id : TypeId) :
    (s.ways reach fuel id).Pairwise fun a b => List.Lex (· < ·) a.1 b.1 := by
  induction fuel generalizing id with
  | zero => exact .nil
  | succ fuel ih =>
    unfold ways
    split
    · exact .nil
    · rename_i decl found
      split
      · exact .nil
      · refine .cons ?_ (List.pairwise_flatMap.mpr ⟨?_, ?_⟩)
        · intro way member
          obtain ⟨edge, _, member⟩ := List.mem_flatMap.mp member
          obtain ⟨further, _, rfl⟩ := List.mem_map.mp member
          exact .nil
        · intro edge _
          rw [List.pairwise_map]
          exact (ih edge.1).imp fun before => .cons before
        · have positions : (reach.edges decl).zipIdx.Pairwise fun a b => a.2 < b.2 := by
            rw [← List.pairwise_map (f := Prod.snd), List.zipIdx_map_snd]
            exact List.pairwise_lt_range'
          refine positions.imp fun {a b} earlier => ?_
          intro x left y right
          obtain ⟨_, _, rfl⟩ := List.mem_map.mp left
          obtain ⟨_, _, rfl⟩ := List.mem_map.mp right
          exact .rel earlier

theorem mem_ways {fuel : Nat} (covers : ∀ decl, reach.edges decl ⊆ links decl)
    (grounded : s.catalog.Grounded links id) (enough : s.catalog.rank links id ≤ fuel)
    (path : List Nat) (last : TypeId) :
    (path, last) ∈ s.ways reach fuel id ↔ s.Way reach id path last := by
  -- the fuel is no less than the rank, which falls along every edge
  induction fuel generalizing id path with
  | zero =>
    have := grounded.rank_pos
    omega
  | succ fuel ih =>
    obtain ⟨decl, found, _, onward⟩ := grounded.step
    have plain := isPlainType_of_found found
    simp only [ways, found]
    cases isPlain : s.settings.isPlainName decl.name with
    | true =>
      rw [isPlain] at plain
      refine ⟨fun member => by simp at member, fun way => ?_⟩
      have := way.notPlain
      rw [plain] at this
      cases this
    | false =>
      rw [isPlain] at plain
      have inner {next : TypeId} {position : Nat} (rest : List Nat)
          (edge : (reach.edges decl)[position]? = some next) :
          (rest, last) ∈ s.ways reach fuel next ↔ s.Way reach next rest last := by
        obtain ⟨further, lower⟩ := onward next (covers decl (List.mem_of_getElem? edge))
        exact ih further (by omega) rest
      simp only [Bool.false_eq_true, ↓reduceIte, List.mem_cons, List.mem_flatMap, List.mem_map]
      constructor
      · rintro (same | ⟨⟨next, position⟩, edge, ⟨rest, last⟩, member, same⟩)
        · cases same
          exact .here plain
        · cases same
          have edge := List.mk_mem_zipIdx_iff_getElem?.mp edge
          exact .turn plain found edge ((inner rest edge).mp member)
      · intro way
        cases way with
        | here _ => exact .inl rfl
        | turn _ known edge further =>
          rw [found] at known
          cases known
          exact .inr ⟨(_, _), List.mk_mem_zipIdx_iff_getElem?.mpr edge, _,
            (inner _ edge).mpr further, rfl⟩

theorem Way.reaches {path : List Nat} {last : TypeId} (way : s.Way reach id path last) :
    s.catalog.Reaches TypeDecl.links id last := by
  induction way with
  | here _ => exact .refl
  | turn _ found edge _ ih =>
    exact ih.head ⟨_, found, reach.edges_subset _ (List.mem_of_getElem? edge)⟩

/-- A path turns only to edges, so whatever links contain these tell enough of a catalog. -/
theorem ways_inOrder_of_covers {fuel : Nat} (covers : ∀ decl, reach.edges decl ⊆ links decl)
    (grounded : s.catalog.Grounded links id) (enough : s.catalog.rank links id ≤ fuel) :
    s.WaysInOrder reach id (s.ways reach fuel id) :=
  ⟨mem_ways covers grounded enough, ways_ordered fuel id⟩

theorem ways_inOrder {fuel : Nat} (grounded : s.catalog.Grounded TypeDecl.links id)
    (enough : s.catalog.rank TypeDecl.links id ≤ fuel) :
    s.WaysInOrder reach id (s.ways reach fuel id) :=
  ways_inOrder_of_covers reach.edges_subset grounded enough

end Scanner

namespace Course

variable {s : Scanner} {c d : Course Unit} {types more : List TypeId}

structure Visits (s : Scanner) (c : Course Unit) (types : List TypeId) : Prop where
  answer : ∀ i, (c.run i).answer = .ok ()
  index : ∀ i, (c.run i).index = i + types.length
  failures : ∀ i, Event.failures (c.run i).events = []
  deliveries : ∀ i, Event.deliveries (c.run i).events =
    (types.zipIdx i).map fun (id, level) => ⟨level, .type id, s.slotsOf (.type id)⟩

theorem Visits.none : Visits s (pure ()) [] :=
  ⟨fun _ => rfl, fun _ => rfl, fun _ => rfl, fun _ => rfl⟩

theorem Visits.append (first : Visits s c types) (rest : Visits s d more) :
    Visits s (c >>= fun _ => d) (types ++ more) := by
  have both (i : Nat) := run_bind_of_ok (first.answer i) fun _ => d
  refine ⟨fun i => ?_, fun i => ?_, fun i => ?_, fun i => ?_⟩
  · rw [both i]
    exact rest.answer _
  · rw [both i]
    show (d.run (c.run i).index).index = _
    rw [rest.index, first.index, List.length_append, Nat.add_assoc]
  · rw [both i]
    show Event.failures ((c.run i).events ++ (d.run (c.run i).index).events) = []
    rw [Event.failures_append, first.failures, rest.failures, List.append_nil]
  · rw [both i]
    show Event.deliveries ((c.run i).events ++ (d.run (c.run i).index).events) = _
    rw [Event.deliveries_append, first.deliveries, rest.deliveries, first.index,
      List.zipIdx_append, List.map_append]

theorem Visits.contain (visits : Visits s c types) (on : Element) :
    Visits s (c.contain on) types := by
  have same (i : Nat) := run_contain_of_ok (visits.answer i) on
  refine ⟨fun i => ?_, fun i => ?_, fun i => ?_, fun i => ?_⟩
  · rw [same i, visits.answer]
  · rw [same i, visits.index]
  · rw [same i, visits.failures]
  · rw [same i, visits.deliveries]

theorem Visits.composes : Composes (Visits s) := ⟨.none, .append⟩

theorem Visits.level (id : TypeId) :
    Visits s (do deliver (← Course.index) (.type id) (s.slotsOf (.type id)); advance) [id] :=
  ⟨fun _ => rfl, fun _ => rfl, fun _ => rfl, fun _ => rfl⟩

theorem Visits.entering (visits : Visits s c types) : Visits s (do enter (← Course.index); c) types := by
  have entered (i : Nat) : (do enter (← Course.index); c : Course Unit).run i =
      ⟨(c.run i).answer, (c.run i).index, .enter i :: (c.run i).events⟩ := rfl
  refine ⟨fun i => ?_, fun i => ?_, fun i => ?_, fun i => ?_⟩
  · rw [entered i]
    exact visits.answer i
  · rw [entered i]
    exact visits.index i
  · rw [entered i]
    exact visits.failures i
  · rw [entered i]
    exact visits.deliveries i

end Course

namespace Terrain

open Course

variable {t : Terrain} {reach : Scan.Reach}

theorem typeFrom_visits {fuel : Nat} (unfiltered : ∀ id, t.rejects id = false)
    (grounded : t.scanner.catalog.Grounded TypeDecl.links id)
    (enough : t.scanner.catalog.rank TypeDecl.links id ≤ fuel) :
    Visits t.scanner (t.typeFrom reach fuel id) ((t.scanner.ways reach fuel id).map Prod.snd) := by
  induction fuel generalizing id with
  | zero =>
    have := grounded.rank_pos
    omega
  | succ fuel ih =>
    obtain ⟨decl, found, loaded, onward⟩ := grounded.step
    have present (next : TypeId) (member : next ∈ decl.links) :
        t.scanner.catalog.isPresent next = true := (onward next member).1.here
    have each (next : TypeId) (member : next ∈ reach.edges decl) :
        Visits t.scanner (t.typeFrom reach fuel next)
          ((t.scanner.ways reach fuel next).map Prod.snd) := by
      obtain ⟨further, lower⟩ := onward next (reach.edges_subset decl member)
      exact ih further (by omega)
    refine .contain (.entering ?_) _
    rw [isPlainType_asked found]
    simp only [Scanner.ways, found]
    cases t.scanner.settings.isPlainName decl.name with
    | true => exact .none
    | false =>
      have slots : t.declared (.type id) = pure (t.scanner.slotsOf (.type id)) := by
        rw [declared_unfiltered unfiltered, Scanner.freshSlots_of_present grounded.here]
        rfl
      have composes := Visits.composes (s := t.scanner)
      have sideways := composes.sideways loaded reach.interfaces
        (fun next member => present next
          (by simp only [TypeDecl.links, List.mem_append, member, true_or]))
        fun next member => each next
          (by simp only [Scan.Reach.edges, List.mem_append, member, true_or])
      have upward := composes.upward loaded
        (fun next member => present next
          (by simp only [TypeDecl.links, List.mem_append, member, true_or, or_true]))
        fun next member => each next
          (by simp only [Scan.Reach.edges, List.mem_append, member, true_or, or_true])
      have outward := composes.outward loaded reach.enclosing
        (fun next member => present next
          (by simp only [TypeDecl.links, List.mem_append, member, or_true]))
        fun next member => each next
          (by simp only [Scan.Reach.edges, List.mem_append, member, or_true])
      have whole := (Visits.level id).append (sideways.append (upward.append outward))
      rw [← List.flatMap_append, ← List.flatMap_append, ← List.append_assoc] at whole
      simp only [bind_assoc] at whole
      simp only [slots, pure_bind, Bool.false_eq_true, ↓reduceIte, List.map_cons,
        Scanner.ends_of_turns]
      exact whole

end Terrain

namespace Scan

variable {σ ο : Type}

def Shows (s : Scanner) (way : List Nat × TypeId) (level : Nat) (d : Delivery) : Prop :=
  d.index = level ∧ d.source = .type way.2 ∧
    ((s.declared (.type way.2)).answered .empty).1 = .ok d.slots

/-- A walk of types shows every way once and in order, and no failure is reported. -/
theorem walk_shows_ways (s : Scan σ ο) (history : List Operation) {strategy : Strategy}
    {reach : Reach} {source : TypeId} (walks : strategy.reach? = some reach)
    (unfiltered : ∀ id, s.rejects id = false) (patient : s.visitor.Patient)
    (grounded : s.scanner.catalog.Grounded TypeDecl.links source) :
    ∃ ways, s.scanner.WaysInOrder reach source ways ∧
      List.Forall₂ (fun way d => Shows s.scanner way.1 way.2 d) ways.zipIdx
        (Event.deliveries (s.logAfter history strategy (.type source))) ∧
      Event.failures (s.logAfter history strategy (.type source)) = [] := by
  have enough : s.scanner.catalog.rank TypeDecl.links source ≤ s.depth :=
    Catalog.rank_le_typeCount.trans s.typeCount_le_depth
  have course : s.terrain.course s.depth strategy (.type source) =
      s.terrain.typeFrom reach s.depth source := by
    cases strategy <;> cases walks <;> rfl
  have visits : Course.Visits s.scanner (s.terrain.typeFrom reach s.depth source)
      ((s.scanner.ways reach s.depth source).map Prod.snd) :=
    Terrain.typeFrom_visits (t := s.terrain) unfiltered grounded enough
  have inOrder : s.scanner.WaysInOrder reach source (s.scanner.ways reach s.depth source) :=
    Scanner.ways_inOrder grounded enough
  refine ⟨_, inOrder, ?_, ?_⟩
  · rw [s.logAfter_of_patient history strategy _ patient, Terrain.events, course,
      visits.deliveries, List.zipIdx_map, List.map_map, List.forall₂_map_right_iff,
      List.forall₂_same]
    intro way member
    have listed := (inOrder.all way.1.1 way.1.2).mp (List.fst_mem_of_mem_zipIdx member)
    have present := grounded.present _ listed.reaches
    have answered := ((s.scanner.declared_settles (.type way.1.2)).answered (.empty s.scanner)).1
    rw [Scanner.freshSlots_of_present present] at answered
    exact ⟨rfl, rfl, answered⟩
  · rw [s.logAfter_of_patient history strategy _ patient, Terrain.events, course]
    exact visits.failures 0

def diamond : Scan (List Level) (List Level) where
  scanner := ⟨.ofDecls [Catalog.rootDecl,
    ⟨⟨1⟩, "shape.Base", .interface, [], none, [], none, false, true⟩,
    ⟨⟨2⟩, "shape.Left", .interface, [], none, [⟨⟨1⟩, []⟩], none, false, true⟩,
    ⟨⟨3⟩, "shape.Right", .interface, [], none, [⟨⟨1⟩, []⟩], none, false, true⟩,
    ⟨⟨4⟩, "shape.Around", .classType, [], some ⟨⟨0⟩, []⟩, [], none, false, true⟩,
    ⟨⟨5⟩, "shape.Inside", .classType, [], some ⟨⟨4⟩, []⟩, [⟨⟨2⟩, []⟩, ⟨⟨3⟩, []⟩, ⟨⟨2⟩, []⟩],
      some ⟨4⟩, false, true⟩] [] [], {}⟩
  visitor := .levels
  rejects _ := false

theorem diamond_shown :
    ∃ ways, diamond.scanner.WaysInOrder ⟨true, true⟩ ⟨5⟩ ways ∧
      List.Forall₂ (fun way d => Shows diamond.scanner way.1 way.2 d) ways.zipIdx
        (Event.deliveries (diamond.logAfter [.clear] .enclosing (.type ⟨5⟩))) ∧
      Event.failures (diamond.logAfter [.clear] .enclosing (.type ⟨5⟩)) = [] := by
  have descends : diamond.scanner.catalog.Descends TypeDecl.links TypeId.index := by decide
  have present : diamond.scanner.catalog.isPresent ⟨5⟩ = true := by decide
  exact walk_shows_ways diamond [.clear] rfl (fun _ => rfl) Visitor.levels_patient
    (descends.grounded present)

example : (diamond.scanner.ways ⟨true, true⟩ 6 ⟨5⟩).map (·.2.index) =
    [5, 2, 1, 3, 1, 2, 1, 4, 4] := by decide

end Scan

end Lineage
