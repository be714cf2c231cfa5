import Lineage.Proofs.Catalog.Built
import Lineage.Proofs.Scan.Deliveries
import Lineage.Proofs.Scan.Depth

namespace Lineage

namespace Visitor

variable {σ ο : Type} {v : Visitor σ ο}

inductive Silent (v : Visitor σ ο) : σ → List Event → σ → Prop
  | nothing {state : σ} : Silent v state [] state
  | event {state next last : σ} {event : Event} {rest : List Event} :
    v.react event state = (none, next) → Silent v next rest last →
    Silent v state (event :: rest) last

/-- How a scan ends whose events are some trace: after the whole trace without an answer, or with the
    first event that the visitor answers. -/
inductive Ends (v : Visitor σ ο) (trace : List Event) : Outcome ο → Prop
  | whole {last : σ} {memo : Memo} : v.Silent v.start trace last →
    Ends v trace ⟨v.finish none last, trace, memo⟩
  | early {silent later : List Event} {event : Event} {last after : σ} {answer : ο} {memo : Memo} :
    trace = silent ++ event :: later → v.Silent v.start silent last →
    v.react event last = (some answer, after) →
    Ends v trace ⟨v.finish (some answer) after, silent ++ [event], memo⟩

theorem watch_cases (v : Visitor σ ο) (events : List Event) (state : σ) :
    (∃ last, v.Silent state events last ∧ v.watch events state = ⟨events, none, last⟩) ∨
    (∃ silent event later last answer after, events = silent ++ event :: later ∧
      v.Silent state silent last ∧ v.react event last = (some answer, after) ∧
      v.watch events state = ⟨silent ++ [event], some answer, after⟩) := by
  induction events generalizing state with
  | nil => exact .inl ⟨state, .nothing, rfl⟩
  | cons first rest ih =>
    rcases reaction : v.react first state with ⟨_ | answer, next⟩
    · rw [watch_cons_of_silence reaction]
      rcases ih next with ⟨last, silence, watched⟩ |
        ⟨silent, event, later, last, answer, after, split, silence, answered, watched⟩
      · refine .inl ⟨last, .event reaction silence, ?_⟩
        rw [watched]
      · refine .inr ⟨first :: silent, event, later, last, answer, after, ?_, ?_, answered, ?_⟩
        · rw [split, List.cons_append]
        · exact .event reaction silence
        · rw [watched, List.cons_append]
    · exact .inr ⟨[], first, rest, state, answer, next, rfl, .nothing, reaction,
        watch_cons_of_answer reaction⟩

theorem ends_of_watch (events : List Event) (memo : Memo) :
    v.Ends events ⟨v.finish (v.watch events v.start).answer (v.watch events v.start).state,
      (v.watch events v.start).seen, memo⟩ := by
  rcases v.watch_cases events v.start with ⟨last, silence, watched⟩ |
    ⟨silent, event, later, last, answer, after, split, silence, answered, watched⟩
  · rw [watched]
    exact .whole silence
  · rw [watched]
    exact .early split silence answered

end Visitor

namespace Scan

variable {σ ο τ π : Type}

/-- Scans of the same types have the same events, whoever watches them. -/
theorem events_eq (s : Scan σ ο) (p : Scan τ π) (same : p.terrain = s.terrain)
    (acyclic : s.scanner.catalog.Acyclic) (strategy : Strategy) (source : Element) :
    p.terrain.events p.depth strategy source = s.terrain.events s.depth strategy source := by
  have catalogs : p.scanner.catalog = s.scanner.catalog :=
    congrArg (fun t : Terrain => t.scanner.catalog) same
  have enough := p.typeCount_le_depth
  rw [catalogs] at enough
  rw [same]
  unfold Terrain.events
  rcases Nat.eq_zero_or_pos s.scanner.catalog.typeCount with none | some
  · -- without types there is no fuel, whatever the visitors
    have nowhere : p.depth = s.depth := by
      rw [depth, depth, catalogs, none, Nat.zero_mul, Nat.zero_mul]
    rw [nowhere]
  · rw [Terrain.course_settled (t := s.terrain) acyclic enough s.typeCount_le_depth some]

/-- A scan goes on as if nobody watched up to the first callback that its visitor answers, and gives
    what the visitor makes of that answer. -/
theorem run_ends (s : Scan σ ο) (p : Scan τ π) (history before : List Operation)
    (same : p.terrain = s.terrain) (patient : p.visitor.Patient)
    (acyclic : s.scanner.catalog.Acyclic) (strategy : Strategy) (source : Element) :
    s.visitor.Ends (p.logAfter before strategy source)
      (s.run strategy source (s.scanner.memoAfter history)) := by
  obtain ⟨after, _, ran⟩ := s.run_eq strategy source (s.scanner.memoAfter_faithful history)
  rw [ran, p.logAfter_of_patient before strategy source patient,
    s.events_eq p same acyclic strategy source]
  exact Visitor.ends_of_watch _ after

def interrupted : Scan Unit Nat where
  scanner := ⟨.ofDecls [Catalog.rootDecl,
    ⟨⟨1⟩, "shape.Gone", .interface, [], none, [], none, false, false⟩,
    ⟨⟨2⟩, "shape.Side", .interface, [], none, [⟨⟨1⟩, []⟩], none, false, true⟩,
    ⟨⟨3⟩, "shape.Upper", .classType, [], some ⟨⟨0⟩, []⟩, [], none, false, true⟩,
    ⟨⟨4⟩, "shape.Lower", .classType, [], some ⟨⟨3⟩, []⟩, [⟨⟨2⟩, []⟩], none, false, true⟩]
    [] [], {}⟩
  visitor :=
    { start := ()
      enter := fun index _ => (if index = 2 then some index else none, ())
      receive := fun _ _ _ _ => (none, ())
      finish := fun answer _ => answer }
  rejects _ := false

theorem interrupted_ends :
    interrupted.visitor.Ends
      (Scan.logAfter ⟨interrupted.scanner, Visitor.levels, interrupted.rejects⟩ []
        .hierarchy (.type ⟨4⟩))
      (interrupted.run .hierarchy (.type ⟨4⟩) (interrupted.scanner.memoAfter [.clear])) := by
  have falls : interrupted.scanner.catalog.Falls TypeDecl.links TypeId.index := by decide
  exact run_ends interrupted ⟨interrupted.scanner, Visitor.levels, interrupted.rejects⟩ [.clear] []
    rfl Visitor.levels_patient falls.acyclic .hierarchy (.type ⟨4⟩)

example : (interrupted.run .hierarchy (.type ⟨4⟩) .empty).answer = some 2 := by decide

end Scan

end Lineage
