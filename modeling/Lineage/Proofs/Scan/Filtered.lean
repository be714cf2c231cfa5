import Lineage.Proofs.Catalog.Built
import Lineage.Proofs.Scan.Depth
import Lineage.Proofs.Scan.Levels
import Lineage.Proofs.Scan.Paths

namespace Lineage

def Element.isRejected (rejects : TypeId → Bool) : Element → Bool
  | .type id => rejects id
  | .member _ | .parameter _ _ => false

namespace Event

variable {rejects : TypeId → Bool}

def mask (rejects : TypeId → Bool) : Event → Event
  | .records index source slots =>
    .records index source (if source.isRejected rejects then [] else slots)
  | event => event

theorem levels_mask (log : List Event) :
    levels (log.map (mask rejects)) = (levels log).filter (!·.source.isRejected rejects) := by
  induction log with
  | nil => rfl
  | cons event rest ih =>
    cases event with
    | enter _ | failure _ _ => exact ih
    | records index source slots =>
      rw [List.map_cons, mask, levels_records, levels_records, List.filter_append, ih]
      congr 1
      cases hidden : source.isRejected rejects with
      | true =>
        show [] = _
        rw [Level.of?]
        split
        · rfl
        · simp [hidden]
      | false =>
        rw [if_neg Bool.false_ne_true, Level.of?]
        split
        · rfl
        · simp [hidden]

theorem entered_mask (log : List Event) : entered (log.map (mask rejects)) = entered log := by
  rw [entered, List.filterMap_map]
  refine List.filterMap_congr fun event _ => ?_
  cases event <;> rfl

theorem failures_mask (log : List Event) : failures (log.map (mask rejects)) = failures log := by
  rw [failures, List.filterMap_map]
  refine List.filterMap_congr fun event _ => ?_
  cases event <;> rfl

/-- A log that shows the levels of another one but those of rejected types, enters the same levels
    and reports the same failures. -/
structure Hides (rejects : TypeId → Bool) (whole part : List Event) : Prop where
  levels : levels part = (levels whole).filter (!·.source.isRejected rejects)
  entered : entered part = entered whole
  failures : failures part = failures whole

theorem hides_mask (log : List Event) : Hides rejects log (log.map (mask rejects)) :=
  ⟨levels_mask log, entered_mask log, failures_mask log⟩

end Event

namespace Course

variable {α β : Type} {rejects : TypeId → Bool} {c d : Course α}

def Masks (rejects : TypeId → Bool) (c d : Course α) : Prop := ∀ level, d.run level =
  ⟨(c.run level).answer, (c.run level).index, (c.run level).events.map (Event.mask rejects)⟩

theorem Masks.ask (answer : Except QueryError α) : Masks rejects (ask answer) (ask answer) :=
  fun _ => rfl

theorem Masks.bind {next after : α → Course β} (first : Masks rejects c d)
    (rest : ∀ a, Masks rejects (next a) (after a)) : Masks rejects (c >>= next) (d >>= after) := by
  intro level
  have answers : (d.run level).answer = (c.run level).answer := by rw [first level]
  cases ended : (c.run level).answer with
  | error e =>
    rw [run_bind_of_error (answers.trans ended), run_bind_of_error ended, first level]
  | ok a =>
    rw [run_bind_of_ok (answers.trans ended), run_bind_of_ok ended, rest a _, first level,
      List.map_append]

theorem Masks.contain {c d : Course Unit} (masks : Masks rejects c d) (on : Element) :
    Masks rejects (c.contain on) (d.contain on) := by
  intro level
  have answers : (d.run level).answer = (c.run level).answer := by rw [masks level]
  cases ended : (c.run level).answer with
  | ok u => rw [run_contain_of_ok (answers.trans ended), run_contain_of_ok ended, masks level]
  | error e =>
    rw [run_contain_of_error (answers.trans ended), run_contain_of_error ended, masks level,
      List.map_append]
    rfl

theorem Masks.conforms : Conforms (Masks rejects) where
  nothing _ := rfl
  unasked _ _ := rfl
  report _ _ _ := rfl
  append first rest := first.bind fun _ => rest

end Course

namespace Terrain

open Course

variable {s : Scanner} {rejects : TypeId → Bool} {id : TypeId} {reach : Scan.Reach}

/-- A walk from a present type only lacks the records of the rejected types. -/
theorem typeFrom_masks (present : s.catalog.isPresent id = true) (fuel : Nat) :
    Masks rejects ((⟨s, fun _ => false⟩ : Terrain).typeFrom reach fuel id)
      ((⟨s, rejects⟩ : Terrain).typeFrom reach fuel id) := by
  induction fuel generalizing id with
  | zero => exact fun _ => rfl
  | succ fuel ih =>
    let whole : Terrain := ⟨s, fun _ => false⟩
    let part : Terrain := ⟨s, rejects⟩
    have each (next : TypeId) (crosses : s.catalog.Crosses id next) := ih crosses.2
    have conforms : Conforms (Masks rejects) := Masks.conforms
    have onward := conforms.onward (t := whole) (u := part) rfl each reach
    have slots := Scanner.freshSlots_of_present present
    have shown : part.shown (.type id) = .ok (if rejects id then [] else s.slotsOf (.type id)) := by
      show (if rejects id then .ok [] else s.freshSlots (.type id)) = _
      rw [slots, apply_ite Except.ok]
    have entering : Masks rejects (do enter (← index)) (do enter (← index)) := fun _ => rfl
    have showing : Masks rejects (do deliver (← index) (.type id) (s.slotsOf (.type id)); advance)
        (do deliver (← index) (.type id) (if rejects id then [] else s.slotsOf (.type id)); advance) :=
      fun _ => rfl
    unfold typeFrom
    rw [declared_unfiltered fun _ => rfl, slots, declared_eq_ask, shown]
    refine .contain (entering.bind fun _ => (Masks.ask _).bind fun plain => ?_) _
    cases plain with
    | true => exact Masks.ask (.ok ())
    | false =>
      simp only [Bool.false_eq_true, ↓reduceIte, ask_ok]
      exact showing.bind fun _ => onward

/-- A walk from a type that cannot be loaded shows nothing, whether its records are asked for or only
    what is above it: both fail alike. -/
theorem typeFrom_hides_of_absent {e : QueryError} (absent : s.catalog.load id = .error e)
    (fuel : Nat) :
    Event.Hides rejects (((⟨s, fun _ => false⟩ : Terrain).typeFrom reach fuel id).run 0).events
      (((⟨s, rejects⟩ : Terrain).typeFrom reach fuel id).run 0).events := by
  have slots : s.freshSlots (.type id) = .error e := by
    simp only [Scanner.freshSlots, Catalog.declaredRecords, Catalog.loadElement, absent, Bind.bind,
      Except.bind]
  have interfaces : s.catalog.interfaces id = .error e := by
    simp only [Catalog.interfaces, absent, Bind.bind, Except.bind]
  have superclass : s.catalog.superclass id = .error e := by
    simp only [Catalog.superclass, absent, Bind.bind, Except.bind]
  cases fuel with
  | zero => exact ⟨rfl, rfl, rfl⟩
  | succ fuel =>
    unfold typeFrom
    rw [declared_unfiltered fun _ => rfl, slots, declared_eq_ask]
    rcases plain : s.isPlainType id with e | _ | _
    · exact ⟨rfl, rfl, rfl⟩
    · cases hidden : rejects id with
      | false =>
        have shown : (⟨s, rejects⟩ : Terrain).shown (.type id) = .error e := by
          show (if rejects id then .ok [] else s.freshSlots (.type id)) = _
          rw [hidden, slots]
          rfl
        rw [shown]
        exact ⟨rfl, rfl, rfl⟩
      | true =>
        have shown : (⟨s, rejects⟩ : Terrain).shown (.type id) = .ok [] := by
          show (if rejects id then .ok [] else s.freshSlots (.type id)) = _
          rw [hidden]
          rfl
        rw [shown]
        unfold sideways upward properSuperclass
        rw [interfaces, superclass]
        cases reach.interfaces <;> exact ⟨rfl, rfl, rfl⟩
    · exact ⟨rfl, rfl, rfl⟩

theorem typeFrom_hides (fuel : Nat) (id : TypeId) :
    Event.Hides rejects (((⟨s, fun _ => false⟩ : Terrain).typeFrom reach fuel id).run 0).events
      (((⟨s, rejects⟩ : Terrain).typeFrom reach fuel id).run 0).events := by
  cases loaded : s.catalog.load id with
  | error e => exact typeFrom_hides_of_absent loaded fuel
  | ok decl =>
    have masks : Masks rejects ((⟨s, fun _ => false⟩ : Terrain).typeFrom reach fuel id)
        ((⟨s, rejects⟩ : Terrain).typeFrom reach fuel id) :=
      typeFrom_masks (Catalog.present_of_load loaded).2 fuel
    rw [masks 0]
    exact Event.hides_mask _

end Terrain

namespace Scan

/-- A scan of types with some of them rejected gives the levels of the other types, where they are
    without it, and enters the same levels and fails alike. -/
theorem filtered_walk_levels (s : Scanner) (rejects : TypeId → Bool)
    (history other : List Operation) {strategy : Strategy} {reach : Reach} (source : TypeId)
    (walks : strategy.reach? = some reach) :
    let whole : Scan (List Level) (List Level) := ⟨s, .levels, fun _ => false⟩
    let part : Scan (List Level) (List Level) := ⟨s, .levels, rejects⟩
    ∃ levels,
      (whole.run strategy (.type source) (s.memoAfter history)).answer = some levels ∧
      (part.run strategy (.type source) (s.memoAfter other)).answer =
        some (levels.filter (!·.source.isRejected rejects)) ∧
      Event.entered (part.logAfter other strategy (.type source)) =
        Event.entered (whole.logAfter history strategy (.type source)) ∧
      Event.failures (part.logAfter other strategy (.type source)) =
        Event.failures (whole.logAfter history strategy (.type source)) := by
  intro whole part
  have course (t : Terrain) (fuel : Nat) :
      t.course fuel strategy (.type source) = t.typeFrom reach fuel source := by
    cases strategy <;> cases walks <;> rfl
  have hides : Event.Hides rejects (whole.terrain.events whole.depth strategy (.type source))
      (part.terrain.events part.depth strategy (.type source)) := by
    rw [Terrain.events, Terrain.events, course, course]
    exact Terrain.typeFrom_hides whole.depth source
  rw [whole.logAfter_of_patient history strategy _ Visitor.levels_patient,
    part.logAfter_of_patient other strategy _ Visitor.levels_patient]
  refine ⟨_, answer_run_levels s _ history strategy _, ?_, hides.entered, hides.failures⟩
  rw [← hides.levels]
  exact answer_run_levels s rejects other strategy _

def screened : Scanner where
  catalog := .ofDecls [Catalog.rootDecl,
    ⟨⟨1⟩, "mark.Seen", .recordKind, [], none, [], none, false, true⟩,
    ⟨⟨2⟩, "ext.Missing", .classType, [], none, [], none, false, false⟩,
    ⟨⟨3⟩, "shape.Store", .interface, [], none, [⟨⟨2⟩, []⟩], none, false, true⟩,
    ⟨⟨4⟩, "shape.Base", .classType, [], some ⟨⟨0⟩, []⟩, [⟨⟨3⟩, []⟩], none, false, true⟩,
    ⟨⟨5⟩, "shape.Low", .classType, [], some ⟨⟨4⟩, []⟩, [], none, false, true⟩]
    [] [(.type ⟨3⟩, .ofKind ⟨1⟩), (.type ⟨4⟩, .ofKind ⟨1⟩), (.type ⟨5⟩, .ofKind ⟨1⟩)]
  settings := {}

theorem screened_levels :
    let whole : Scan (List Level) (List Level) := ⟨screened, .levels, fun _ => false⟩
    let part : Scan (List Level) (List Level) := ⟨screened, .levels, fun id => id = ⟨4⟩⟩
    ∃ levels,
      (whole.run .hierarchy (.type ⟨5⟩) (screened.memoAfter [])).answer = some levels ∧
      (part.run .hierarchy (.type ⟨5⟩) (screened.memoAfter [.clear])).answer =
        some (levels.filter (!·.source.isRejected fun id => id = ⟨4⟩)) ∧
      Event.entered (part.logAfter [.clear] .hierarchy (.type ⟨5⟩)) =
        Event.entered (whole.logAfter [] .hierarchy (.type ⟨5⟩)) ∧
      Event.failures (part.logAfter [.clear] .hierarchy (.type ⟨5⟩)) =
        Event.failures (whole.logAfter [] .hierarchy (.type ⟨5⟩)) :=
  filtered_walk_levels screened (fun id => id = ⟨4⟩) [] [.clear] ⟨5⟩ rfl

example :
    let part : Scan (List Level) (List Level) := ⟨screened, .levels, fun id => id = ⟨4⟩⟩
    ((part.run .hierarchy (.type ⟨5⟩) .empty).answer.getD []).map (fun l => (l.index, l.source)) =
      [(0, .type ⟨5⟩), (2, .type ⟨3⟩)] := by decide +kernel

end Scan

end Lineage
