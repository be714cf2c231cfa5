import Lineage.Proofs.Scan.Paths
import Lineage.Proofs.Scanner.Candidates

namespace Lineage

variable {id : TypeId}

/-- The events of a walk of some types. Each is entered at the level where the walk is, and those
    that show something there end the level. -/
def trace (shows : Nat → TypeId → List Event) : Nat → List TypeId → List Event
  | _, [] => []
  | level, id :: rest =>
    .enter level :: shows level id ++
      trace shows (if (shows level id).isEmpty then level else level + 1) rest

def levelAfter (shows : Nat → TypeId → List Event) : Nat → List TypeId → Nat
  | level, [] => level
  | level, id :: rest =>
    levelAfter shows (if (shows level id).isEmpty then level else level + 1) rest

namespace Course

variable {shows : Nat → TypeId → List Event} {c : Course Unit} {types more : List TypeId}

theorem trace_append (level : Nat) : trace shows level (types ++ more) =
    trace shows level types ++ trace shows (levelAfter shows level types) more := by
  induction types generalizing level with
  | nil => rfl
  | cons id rest ih => rw [List.cons_append, trace, trace, levelAfter, ih, List.append_assoc]

theorem levelAfter_append (level : Nat) : levelAfter shows level (types ++ more) =
    levelAfter shows (levelAfter shows level types) more := by
  induction types generalizing level with
  | nil => rfl
  | cons id rest ih => rw [List.cons_append, levelAfter, levelAfter, ih]

def Traces (shows : Nat → TypeId → List Event) (c : Course Unit) (types : List TypeId) : Prop :=
  ∀ level, c.run level = ⟨.ok (), levelAfter shows level types, trace shows level types⟩

theorem Traces.composes : Composes (Traces shows) where
  none _ := rfl
  append := by
    intro c d types more first rest level
    have whole := run_bind_of_ok (congrArg Passage.answer (first level)) fun _ => d
    rw [first level, rest] at whole
    rw [whole, trace_append, levelAfter_append]

theorem Traces.contain (traces : Traces shows c types) (on : Element) :
    Traces shows (c.contain on) types := by
  intro level
  rw [run_contain_of_ok (congrArg Passage.answer (traces level)), traces level]

/-- A type is visited by entering a level and then showing what there is. -/
theorem traces_visit (ran : ∀ level, c.run level =
    ⟨.ok (), if (shows level id).isEmpty then level else level + 1, shows level id⟩) :
    Traces shows (do enter (← Course.index); c) [id] := by
  intro level
  have entered : (do enter (← Course.index); c : Course Unit).run level =
      ⟨(c.run level).answer, (c.run level).index, .enter level :: (c.run level).events⟩ := rfl
  rw [entered, ran, trace, levelAfter]
  simp only [trace, levelAfter, List.append_nil]

end Course

theorem edges_of_hierarchy (decl : TypeDecl) : Scan.Reach.edges ⟨true, false⟩ decl =
    decl.interfaces.map (·.target) ++ decl.superLinks.filter (· != Catalog.root) :=
  List.append_nil _

/-- Only the root is left out, which is the last link then. -/
theorem edges_prefix_above (decl : TypeDecl) :
    Scan.Reach.edges ⟨true, false⟩ decl <+: decl.above := by
  rw [edges_of_hierarchy, TypeDecl.above, List.prefix_append_right_inj, TypeDecl.superLinks]
  rcases decl.superclass with _ | above
  · exact List.prefix_rfl
  · rw [Option.toList_some, List.map_singleton, List.filter_singleton]
    cases above.target != Catalog.root with
    | true => exact List.prefix_rfl
    | false => exact List.nil_prefix

theorem edges_subset_above (decl : TypeDecl) : Scan.Reach.edges ⟨true, false⟩ decl ⊆ decl.above :=
  (edges_prefix_above decl).subset

namespace Scanner

variable {s : Scanner} {t : TypeId} {fuel : Nat}

def visited (s : Scanner) : Nat → TypeId → List TypeId
  | 0, _ => []
  | fuel + 1, id =>
    match s.catalog.type? id with
    | none => []
    | some decl =>
      id :: if s.settings.isPlainName decl.name then []
        else (Scan.Reach.edges ⟨true, false⟩ decl).flatMap (visited s fuel)

theorem reaches_of_mem_visited (member : t ∈ s.visited fuel id) :
    s.catalog.Reaches TypeDecl.above id t := by
  induction fuel generalizing id with
  | zero => cases member
  | succ fuel ih =>
    unfold visited at member
    split at member
    · cases member
    · rename_i decl found
      rcases List.mem_cons.mp member with rfl | member
      · exact .refl
      · split at member
        · cases member
        · obtain ⟨next, edge, member⟩ := List.mem_flatMap.mp member
          exact (ih member).head ⟨decl, found, edges_subset_above decl edge⟩

/-- No type is visited again on the way up from it. -/
theorem visited_eq (grounded : s.catalog.Grounded TypeDecl.above id)
    (enough : s.catalog.rank TypeDecl.above id ≤ fuel) :
    ∃ above, s.visited fuel id = id :: above ∧ id ∉ above := by
  obtain ⟨decl, found, _⟩ := Catalog.load_of_present grounded.here
  have positive := grounded.rank_pos
  obtain ⟨less, rfl⟩ : ∃ less, fuel = less + 1 := ⟨fuel - 1, by omega⟩
  simp only [visited, found]
  -- to visit the type again would close a cycle
  refine ⟨_, rfl, fun again => ?_⟩
  split at again
  · cases again
  · obtain ⟨next, edge, again⟩ := List.mem_flatMap.mp again
    exact grounded.acyclic id .refl
      (.head' ⟨decl, found, edges_subset_above decl edge⟩ (reaches_of_mem_visited again))

/-- The visited types that are not plain are where the ways from a type end. -/
theorem visited_eq_ways (fuel : Nat) (id : TypeId) :
    (s.visited fuel id).filter (!s.plain ·) = (s.ways ⟨true, false⟩ fuel id).map Prod.snd := by
  induction fuel generalizing id with
  | zero => rfl
  | succ fuel ih =>
    cases found : s.catalog.type? id with
    | none =>
      simp only [visited, ways, found]
      rfl
    | some decl =>
      have plain := plain_of_found found
      simp only [visited, ways, found]
      cases isPlain : s.settings.isPlainName decl.name with
      | true =>
        rw [isPlain] at plain
        simp [plain]
      | false =>
        rw [isPlain] at plain
        simp only [Bool.false_eq_true, ↓reduceIte, List.map_cons, ends_of_turns]
        rw [List.filter_cons_of_pos (by simp [plain]), List.filter_flatMap]
        simp only [ih]

def typeCalls (s : Scanner) (level : Nat) (id : TypeId) : List Event :=
  if s.plain id then [] else [.records level (.type id) (s.slotsOf (.type id))]

end Scanner

namespace Terrain

open Course

variable {t : Terrain} {decl : TypeDecl}

/-- A type is walked by visiting it and, if it is not plain, by walking all that it leads to. -/
theorem hierarchy_traces (shows : Nat → TypeId → List Event) (walk : TypeId → Course Unit)
    (found : TypeId → List TypeId) (body : Course Unit) (on : Element)
    (loaded : t.scanner.catalog.load id = .ok decl)
    (present : ∀ next ∈ decl.above, t.scanner.catalog.isPresent next = true)
    (hides : t.scanner.settings.isPlainName decl.name = true → ∀ level, shows level id = [])
    (ran : t.scanner.settings.isPlainName decl.name = false → ∀ level, body.run level =
      ⟨.ok (), if (shows level id).isEmpty then level else level + 1, shows level id⟩)
    (each : ∀ next ∈ Scan.Reach.edges ⟨true, false⟩ decl, Traces shows (walk next) (found next)) :
    Traces shows
      (contain on do
        enter (← index)
        let plain ← ask (t.scanner.isPlainType id)
        if plain then pure ()
        else
          body
          t.sideways true walk id
          t.upward walk id)
      (id :: if t.scanner.settings.isPlainName decl.name then []
        else (Scan.Reach.edges ⟨true, false⟩ decl).flatMap found) := by
  refine .contain ?_ on
  rw [isPlainType_asked (Catalog.present_of_load loaded).1]
  cases isPlain : t.scanner.settings.isPlainName decl.name with
  | true =>
    refine traces_visit fun level => ?_
    rw [hides isPlain level]
    rfl
  | false =>
    have composes : Composes (Traces shows) := Traces.composes
    rw [edges_of_hierarchy] at each ⊢
    have sideways := composes.sideways loaded true
      (fun next member => present next (List.mem_append_left _ member))
      fun next member => each next (List.mem_append_left _ member)
    have upward := composes.upward loaded
      (fun next member => present next (List.mem_append_right _ member))
      fun next member => each next (List.mem_append_right _ member)
    have whole := composes.append (traces_visit (ran isPlain)) (composes.append sideways upward)
    rw [if_pos rfl, ← List.flatMap_append] at whole
    simp only [bind_assoc] at whole
    exact whole

theorem typeFrom_traces {fuel : Nat} (unfiltered : ∀ id, t.rejects id = false)
    (grounded : t.scanner.catalog.Grounded TypeDecl.above id)
    (enough : t.scanner.catalog.rank TypeDecl.above id ≤ fuel) :
    Traces t.scanner.typeCalls (t.typeFrom ⟨true, false⟩ fuel id) (t.scanner.visited fuel id) := by
  -- the fuel is no less than the rank, which falls along every link
  induction fuel generalizing id with
  | zero =>
    have := grounded.rank_pos
    omega
  | succ fuel ih =>
    obtain ⟨decl, found, loaded, onward⟩ := grounded.step
    have plain := Scanner.plain_of_found found
    have slots : t.declared (.type id) = pure (t.scanner.slotsOf (.type id)) := by
      rw [declared_unfiltered unfiltered, Scanner.freshSlots_of_present grounded.here]
      rfl
    have each (next : TypeId) (edge : next ∈ Scan.Reach.edges ⟨true, false⟩ decl) :
        Traces t.scanner.typeCalls (t.typeFrom ⟨true, false⟩ fuel next)
          (t.scanner.visited fuel next) := by
      obtain ⟨further, lower⟩ := onward next (edges_subset_above decl edge)
      exact ih further (by omega)
    have walked := hierarchy_traces t.scanner.typeCalls (t.typeFrom ⟨true, false⟩ fuel)
      (t.scanner.visited fuel)
      (do deliver (← index) (.type id) (t.scanner.slotsOf (.type id)); advance) (.type id) loaded
      (fun next above => (onward next above).1.here)
      (fun isPlain level => by rw [Scanner.typeCalls, plain, isPlain, if_pos rfl])
      (fun isPlain level => by
        rw [Scanner.typeCalls, plain, isPlain]
        rfl) each
    simp only [bind_assoc] at walked
    simp only [Scanner.visited, found, typeFrom, slots, pure_bind, outward, bind_pure_unit,
      Bool.false_eq_true, ↓reduceIte]
    exact walked

end Terrain

end Lineage
