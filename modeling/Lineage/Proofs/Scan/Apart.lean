import Lineage.Proofs.Scan.Branches
import Lineage.Proofs.Scan.Rungs

namespace Lineage

namespace Event

/-- Of two calls with an entry between them the later one is at a higher level. -/
def LevelsApart (log : List Event) : Prop :=
  ∀ first later on other slots further entry,
    [.records first on slots, .enter entry, .records later other further].Sublist log → first < later

theorem levelsApart_of_increasing {log : List Event}
    (increasing : (deliveries log).Pairwise (·.index < ·.index)) : LevelsApart log := by
  intro first later on other slots further entry within
  have calls : [⟨first, on, slots⟩, ⟨later, other, further⟩].Sublist (deliveries log) :=
    within.filterMap delivery?
  exact (List.pairwise_cons.mp (increasing.sublist calls)).1 _ List.mem_cons_self

structure RisesFrom (level : Nat) (log : List Event) : Prop where
  above : ∀ d ∈ deliveries log, level ≤ d.index
  increasing : (deliveries log).Pairwise (·.index < ·.index)

theorem RisesFrom.silent {level : Nat} {log : List Event} (none : deliveries log = []) :
    RisesFrom level log := by
  refine ⟨fun d member => ?_, ?_⟩
  · rw [none] at member
    cases member
  · rw [none]
    exact .nil

theorem RisesFrom.cons {level : Nat} {log : List Event} (higher : RisesFrom (level + 1) log)
    (source : Element) (slots : List Slot) : RisesFrom level (.records level source slots :: log) where
  above d member := by
    rcases List.mem_cons.mp member with rfl | further
    · exact Nat.le_refl level
    · exact Nat.le_of_succ_le (higher.above d further)
  increasing := List.pairwise_cons.mpr ⟨fun d further => higher.above d further, higher.increasing⟩

theorem RisesFrom.weaken {level : Nat} {log : List Event} (higher : RisesFrom (level + 1) log) :
    RisesFrom level log :=
  ⟨fun d member => Nat.le_of_succ_le (higher.above d member), higher.increasing⟩

/-- A rung makes one call at most. -/
theorem RisesFrom.after_rung {level : Nat} {log rest : List Event}
    (rung : log = [] ∨ ∃ source slots, log = [.records level source slots])
    (higher : RisesFrom (level + 1) rest) : RisesFrom level (log ++ rest) := by
  rcases rung with rfl | ⟨source, slots, rfl⟩
  · exact higher.weaken
  · exact higher.cons source slots

theorem RisesFrom.enter {level : Nat} {log : List Event} (rises : RisesFrom level log) (index : Nat) :
    RisesFrom level (.enter index :: log) :=
  ⟨rises.above, rises.increasing⟩

theorem levelsApart_of_one_entry {index : Nat} {log : List Event} (entered : entered log = []) :
    LevelsApart (.enter index :: log) := by
  intro first later on other slots further entry within
  cases within with
  | cons _ rest =>
    have entry : entry ∈ Event.entered log :=
      List.mem_filterMap.mpr ⟨.enter entry, rest.subset (by simp), rfl⟩
    rw [entered] at entry
    cases entry

end Event

namespace Course

variable {α β : Type} {c d : Course α}

theorem deliveries_contain (on : Element) (c : Course Unit) (i : Nat) :
    Event.deliveries ((c.contain on).run i).events = Event.deliveries (c.run i).events := by
  cases ended : (c.run i).answer with
  | ok u => rw [run_contain_of_ok ended]
  | error e =>
    rw [run_contain_of_error ended, Event.deliveries_append]
    exact List.append_nil _

theorem index_contain (on : Element) (c : Course Unit) (i : Nat) :
    ((c.contain on).run i).index = (c.run i).index := by
  cases ended : (c.run i).answer with
  | ok u => rw [run_contain_of_ok ended]
  | error e => rw [run_contain_of_error ended]

structure Rises (c : Course α) : Prop where
  ends : ∀ i, i ≤ (c.run i).index
  calls : ∀ i, ∀ d ∈ Event.deliveries (c.run i).events, i ≤ d.index ∧ d.index < (c.run i).index
  increasing : ∀ i, (Event.deliveries (c.run i).events).Pairwise (·.index < ·.index)

theorem Rises.bind {next : α → Course β} (first : Rises c) (rest : ∀ a, Rises (next a)) :
    Rises (c >>= next) := by
  have whole (i : Nat) : i ≤ ((c >>= next).run i).index ∧
      (∀ d ∈ Event.deliveries ((c >>= next).run i).events,
        i ≤ d.index ∧ d.index < ((c >>= next).run i).index) ∧
      (Event.deliveries ((c >>= next).run i).events).Pairwise (·.index < ·.index) := by
    have start := first.ends i
    cases ended : (c.run i).answer with
    | error e =>
      rw [run_bind_of_error ended]
      exact ⟨start, first.calls i, first.increasing i⟩
    | ok a =>
      have further := (rest a).ends (c.run i).index
      rw [run_bind_of_ok ended]
      simp only [Event.deliveries_append]
      refine ⟨start.trans further, fun d member => ?_, ?_⟩
      · rcases List.mem_append.mp member with here | there
        · have bounds := first.calls i d here
          omega
        · have bounds := (rest a).calls _ d there
          omega
      · refine List.pairwise_append.mpr ⟨first.increasing i, (rest a).increasing _, ?_⟩
        intro earlier here later there
        have below := (first.calls i earlier here).2
        have above := ((rest a).calls _ later there).1
        omega
  exact ⟨fun i => (whole i).1, fun i => (whole i).2.1, fun i => (whole i).2.2⟩

theorem Rises.contain {c : Course Unit} (rises : Rises c) (on : Element) : Rises (c.contain on) := by
  refine ⟨fun i => ?_, fun i => ?_, fun i => ?_⟩
  · rw [index_contain]
    exact rises.ends i
  · rw [index_contain, deliveries_contain]
    exact rises.calls i
  · rw [deliveries_contain]
    exact rises.increasing i

theorem Rises.silent (stays : ∀ i, (c.run i).index = i)
    (silent : ∀ i, Event.deliveries (c.run i).events = []) : Rises c where
  ends i := (stays i).ge
  calls i d made := by
    rw [silent] at made
    cases made
  increasing i := by
    rw [silent]
    exact .nil

theorem Rises.showing (on : Element) (slots : List Slot) :
    Rises (do deliver (← index) on slots; advance) where
  ends := Nat.le_succ
  calls i d made := by
    have same : d = ⟨i, on, slots⟩ := List.mem_singleton.mp made
    rw [same]
    exact ⟨Nat.le_refl i, Nat.lt_succ_self i⟩
  increasing i := List.pairwise_singleton _ _

theorem Rises.kept : Kept fun _ c => Rises c where
  ask _ := .silent (fun _ => rfl) fun _ => rfl
  report _ _ := .silent (fun _ => rfl) fun _ => rfl
  entering := .silent (fun _ => rfl) fun _ => rfl
  showing := .showing
  bind := .bind
  contain on rises := rises.contain on

end Course

namespace Terrain

open Course

variable {t : Terrain}

/-- Each rung of an inherited walk is a level higher than the last. -/
theorem inheritedFrom_rises (source : TypeId) (fuel : Nat) (type : TypeId) (index : Nat)
    (claims : Option Scan.Claims) (i : Nat) :
    Event.RisesFrom index ((t.inheritedFrom source fuel type index claims).run i).events := by
  -- a rung's level is its index, not the level at which the course is
  induction fuel generalizing type index claims i with
  | zero => exact .silent rfl
  | succ fuel ih =>
    have contained {c : Course Unit} (inner : Event.RisesFrom index (c.run i).events) :
        Event.RisesFrom index ((c.contain (.type type)).run i).events := by
      refine ⟨?_, ?_⟩
      · rw [deliveries_contain]
        exact inner.above
      · rw [deliveries_contain]
        exact inner.increasing
    refine contained ?_
    split
    · exact .silent rfl
    rcases t.scanner.isPlainType type with e | _ | _
    · exact .silent rfl
    · rw [ask_ok, if_neg Bool.false_ne_true]
      have entered : ((enter index).run i).answer = .ok () := rfl
      rw [run_bind_of_ok entered]
      refine .enter ?_ index
      rcases t.inheritedLevel_cases source type index claims i with
        ⟨e, ran⟩ | ⟨after, slots, log, _, ran, calls⟩
      · have failed : ((t.inheritedLevel source type index claims).run i).answer = .error e := by
          rw [ran]
        refine .silent ?_
        show Event.deliveries (((t.inheritedLevel source type index claims) >>= _).run i).events = []
        rw [run_bind_of_error failed, ran]
        rfl
      · have done : ((t.inheritedLevel source type index claims).run i).answer = .ok after := by
          rw [ran]
        show Event.RisesFrom index
          (((t.inheritedLevel source type index claims) >>= _).run i).events
        rw [run_bind_of_ok done, ran]
        refine .after_rung (calls.imp_right fun ⟨part, made, _⟩ => ⟨_, part, made⟩) ?_
        rcases t.scanner.catalog.superclass type with e | _ | above
        · exact .silent rfl
        · exact .silent rfl
        · exact ih above (index + 1) after i
    · exact .silent rfl

theorem element_levelsApart (e : Element) : Event.LevelsApart ((t.element e).run 0).events := by
  unfold element
  rw [declared_eq_ask]
  cases t.shown e with
  | error _ => exact Event.levelsApart_of_one_entry rfl
  | ok _ => exact Event.levelsApart_of_one_entry rfl

theorem memberAlone_levelsApart (id : MemberId) :
    Event.LevelsApart ((t.memberAlone id).run 0).events := by
  unfold memberAlone memberRecords
  simp only [declared_eq_ask]
  cases t.shown (.member id) with
  | error _ => exact Event.levelsApart_of_one_entry rfl
  | ok own =>
    cases t.scanner.catalog.bridged id with
    | error _ => exact Event.levelsApart_of_one_entry rfl
    | ok target =>
      simp only [ask_ok]
      split
      · exact Event.levelsApart_of_one_entry rfl
      · cases t.shown (.member target) with
        | error _ => exact Event.levelsApart_of_one_entry rfl
        | ok _ => exact Event.levelsApart_of_one_entry rfl

theorem typeWalk_levelsApart (fuel : Nat) (id : TypeId) (strategy : Strategy) :
    Event.LevelsApart (t.events fuel strategy (.type id)) := by
  cases strategy with
  | direct => exact element_levelsApart (.type id)
  | inherited =>
    show Event.LevelsApart ((t.inheritedType fuel id).run 0).events
    rcases asked : t.scanner.catalog.isWithoutHierarchy .inherited (.type id) with e | _ | _
    · refine Event.levelsApart_of_increasing ?_
      unfold inheritedType
      rw [deliveries_contain, asked]
      exact .nil
    · refine Event.levelsApart_of_increasing ?_
      unfold inheritedType
      rw [deliveries_contain, asked, ask_ok, if_neg Bool.false_ne_true]
      exact (inheritedFrom_rises id fuel id 0 none 0).increasing
    · rw [inheritedType_of_alone asked]
      exact element_levelsApart (.type id)
  | superclass | hierarchy | enclosing =>
    exact Event.levelsApart_of_increasing ((Rises.kept.typeFrom _ fuel id).increasing 0)

end Terrain

end Lineage
