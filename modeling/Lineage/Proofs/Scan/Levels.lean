import Lineage.Proofs.Scan.Deliveries

namespace Lineage

def Level.of? (index : Nat) (source : Element) (records : List Record) : Option Level :=
  if records.isEmpty then none else some ⟨index, source, records⟩

def Delivery.level? (d : Delivery) : Option Level :=
  Level.of? d.index d.source (d.slots.filterMap id)

namespace Event

def levels (log : List Event) : List Level := (deliveries log).filterMap Delivery.level?

theorem levels_append (first rest : List Event) :
    levels (first ++ rest) = levels first ++ levels rest := by
  rw [levels, deliveries_append, List.filterMap_append]
  rfl

def entered (log : List Event) : List Nat :=
  log.filterMap fun
    | .enter index => some index
    | .records _ _ _ | .failure _ _ => none

theorem levels_records (index : Nat) (source : Element) (slots : List Slot) (rest : List Event) :
    levels (.records index source slots :: rest) =
      (Level.of? index source (slots.filterMap id)).toList ++ levels rest := by
  show List.filterMap Delivery.level? (⟨index, source, slots⟩ :: deliveries rest) = _
  rw [List.filterMap_cons, Delivery.level?]
  cases Level.of? index source (slots.filterMap id) <;> rfl

theorem levels_call (index : Nat) (source : Element) (slots : List Slot) :
    levels [.records index source slots] =
      (Level.of? index source (slots.filterMap id)).toList := by
  rw [levels_records]
  exact List.append_nil _

end Event

namespace Course

theorem levels_contain (on : Element) (c : Course Unit) (i : Nat) :
    Event.levels ((c.contain on).run i).events = Event.levels (c.run i).events := by
  cases ended : (c.run i).answer with
  | ok u => rw [run_contain_of_ok ended]
  | error e =>
    rw [run_contain_of_error ended, Event.levels_append]
    exact List.append_nil _

theorem levels_bind {α β : Type} {c : Course α} {i after : Nat} {a : α} {log : List Event}
    (ran : c.run i = ⟨.ok a, after, log⟩) (next : α → Course β) :
    Event.levels ((c >>= next).run i).events =
      Event.levels log ++ Event.levels ((next a).run after).events := by
  have ended : (c.run i).answer = .ok a := by rw [ran]
  rw [run_bind_of_ok ended, ran]
  exact Event.levels_append _ _

theorem levels_bind_of_error {α β : Type} {c : Course α} {i after : Nat} {e : QueryError}
    {log : List Event} (ran : c.run i = ⟨.error e, after, log⟩) (next : α → Course β) :
    Event.levels ((c >>= next).run i).events = Event.levels log := by
  have ended : (c.run i).answer = .error e := by rw [ran]
  rw [run_bind_of_error ended, ran]

end Course

namespace Visitor

/-- The collector of levels keeps those of the events it is shown. -/
theorem state_watch_levels (log : List Event) (collected : List Level) :
    (levels.watch log collected).state = collected ++ Event.levels log := by
  induction log generalizing collected with
  | nil => exact (List.append_nil _).symm
  | cons event rest ih =>
    cases event with
    | enter index | failure on e =>
      rw [watch_cons_of_silence (show levels.react _ collected = (none, collected) from rfl)]
      exact ih collected
    | records index source slots =>
      rw [watch_cons_of_silence rfl]
      refine (ih _).trans ?_
      rw [Event.levels_records, Level.of?, ← List.append_assoc]
      show (if (slots.filterMap id).isEmpty then collected else _) ++ _ = _
      split
      · exact congrArg (· ++ _) (List.append_nil _).symm
      · rfl

end Visitor

namespace Scan

/-- A walk whose levels are collected gives those of all that happens on its course. -/
theorem collected_of_follows (s : Scanner) (rejects : TypeId → Bool)
    {walk : Walk (List Level) (List Level) Unit} {course : Course Unit} {memo : Memo}
    (follows : Walk.Follows ⟨s, .levels, rejects⟩ walk course) (faithful : memo.Faithful s) :
    let scan : Scan (List Level) (List Level) := ⟨s, .levels, rejects⟩
    let outcome := scan.conclude (walk.run (scan.begin memo))
    outcome.answer = some (Event.levels (course.run 0).events) ∧
      outcome.log = (course.run 0).events := by
  intro scan outcome
  obtain ⟨after, _, ran⟩ := scan.outcome_of_follows follows faithful
  have outcome_eq : outcome = _ := ran
  rw [outcome_eq]
  exact ⟨congrArg some (Visitor.state_watch_levels _ []),
    Visitor.seen_of_silence (Visitor.levels_patient.watch _ _)⟩

/-- A scan that collects levels gives those of all that happens. -/
theorem answer_run_levels (s : Scanner) (rejects : TypeId → Bool) (history : List Operation)
    (strategy : Strategy) (source : Element) :
    let scan : Scan (List Level) (List Level) := ⟨s, .levels, rejects⟩
    (scan.run strategy source (s.memoAfter history)).answer =
      some (Event.levels (scan.terrain.events scan.depth strategy source)) := by
  intro scan
  exact (collected_of_follows s rejects (scan.walk_follows scan.depth strategy source)
    (s.memoAfter_faithful history)).1

end Scan

end Lineage
