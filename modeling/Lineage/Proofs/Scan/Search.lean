import Lineage.Proofs.Scan.Rungs

namespace Lineage

theorem Event.failures_prefix {first whole : List Event} (begins : first <+: whole) :
    failures first <+: failures whole := by
  obtain ⟨rest, rfl⟩ := begins
  exact ⟨failures rest, (failures_append first rest).symm⟩

namespace Visitor

variable (kind : TypeId)

/-- A search answers an event with the first record of its kind that this shows. -/
theorem react_firstOfKind (event : Event) :
    (firstOfKind kind).react event () =
      ((Event.found [event]).find? (·.record.kind = kind), ()) := by
  cases event with
  | enter index | failure on e => rfl
  | records index source slots =>
    have shown : Event.found [.records index source slots] =
        (slots.filterMap id).map (⟨index, source, ·⟩) := List.append_nil _
    rw [shown, List.find?_map]
    rfl

/-- A search that is shown some events one after the other finds the first record of its kind among
    all that they show. -/
theorem answer_watch_firstOfKind (log : List Event) :
    ((firstOfKind kind).watch log ()).answer = (Event.found log).find? (·.record.kind = kind) := by
  induction log with
  | nil => rfl
  | cons event rest ih =>
    have reaction := react_firstOfKind kind event
    rw [← List.singleton_append, Event.found_append, List.find?_append, List.singleton_append]
    cases here : (Event.found [event]).find? (·.record.kind = kind) with
    | some found =>
      rw [here] at reaction
      rw [watch_cons_of_answer reaction, Option.some_or]
    | none =>
      rw [here] at reaction
      rw [watch_cons_of_silence reaction, Option.none_or]
      exact ih

end Visitor

namespace Scan

/-- A search finds what comes first among the levels that a collector gives of the same scan, and
    nothing only if there is none of its kind. It hears of failures only as far as it goes. -/
theorem search_finds_first_collected (s : Scanner) (rejects : TypeId → Bool)
    (history before : List Operation) (strategy : Strategy) (source : Element) (kind : TypeId) :
    let search := (⟨s, .firstOfKind kind, rejects⟩ : Scan Unit Found).run strategy source
      (s.memoAfter history)
    let collection := (⟨s, .levels, rejects⟩ : Scan (List Level) (List Level)).run strategy source
      (s.memoAfter before)
    ∃ levels, collection.answer = some levels ∧
      search.answer = (levels.flatMap Level.found).find? (·.record.kind = kind) ∧
      (search.answer = none ↔ ∀ level ∈ levels, ∀ r ∈ level.records, r.kind ≠ kind) ∧
      Event.failures search.log <+: Event.failures collection.log := by
  intro search collection
  let collect : Scan (List Level) (List Level) := ⟨s, .levels, rejects⟩
  let events := collect.terrain.events collect.depth strategy source
  have first : search.answer = ((Event.levels events).flatMap Level.found).find?
      (·.record.kind = kind) := by
    obtain ⟨after, _, ran⟩ := Scan.run_eq ⟨s, .firstOfKind kind, rejects⟩ strategy source
      (s.memoAfter_faithful history)
    rw [← Event.found_eq_levels, ← Visitor.answer_watch_firstOfKind]
    exact congrArg Outcome.answer ran
  refine ⟨Event.levels events, answer_run_levels s rejects before strategy source, first, ?_, ?_⟩
  · rw [first, List.find?_eq_none]
    constructor
    · intro none level listed r shown same
      have found : ⟨level.index, level.source, r⟩ ∈ (Event.levels events).flatMap Level.found :=
        List.mem_flatMap.mpr ⟨level, listed, List.mem_map_of_mem shown⟩
      exact none _ found (decide_eq_true same)
    · intro none found listed same
      obtain ⟨level, there, shown⟩ := List.mem_flatMap.mp listed
      obtain ⟨r, member, rfl⟩ := List.mem_map.mp shown
      exact none level there r member (of_decide_eq_true same)
  · have whole : collection.log = events :=
      collect.logAfter_of_patient before strategy source Visitor.levels_patient
    rw [whole]
    exact Event.failures_prefix (Scan.logAfter_prefix ⟨s, .firstOfKind kind, rejects⟩ history
      strategy source)

end Scan

end Lineage
