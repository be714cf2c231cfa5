import Lineage.Proofs.Scanner.Declared
import Lineage.Proofs.Scanner.History

namespace Lineage

structure Delivery where
  index : Nat
  source : Element
  slots : List Slot

namespace Event

def delivery? : Event → Option Delivery
  | .records index source slots => some ⟨index, source, slots⟩
  | .enter _ | .failure _ _ => none

def deliveries (log : List Event) : List Delivery := log.filterMap delivery?

theorem deliveries_append (first rest : List Event) :
    deliveries (first ++ rest) = deliveries first ++ deliveries rest :=
  List.filterMap_append

theorem failures_append (first rest : List Event) :
    failures (first ++ rest) = failures first ++ failures rest :=
  List.filterMap_append

end Event

namespace Visitor

variable {σ ο : Type} {v : Visitor σ ο}

/-- A visitor that never gives an answer before the end. -/
structure Patient (v : Visitor σ ο) : Prop where
  enter : ∀ index state, (v.enter index state).1 = none
  receive : ∀ index source slots state, (v.receive index source slots state).1 = none

theorem levels_patient : levels.Patient := ⟨fun _ _ => rfl, fun _ _ _ _ => rfl⟩

theorem Patient.react (patient : v.Patient) (event : Event) (state : σ) :
    (v.react event state).1 = none := by
  cases event with
  | enter index => exact patient.enter index state
  | records index source slots => exact patient.receive index source slots state
  | failure on e => rfl

theorem Patient.watch (patient : v.Patient) (events : List Event) (state : σ) :
    (v.watch events state).answer = none := by
  induction events generalizing state with
  | nil => rfl
  | cons event rest ih =>
    have silent := patient.react event state
    rcases h : v.react event state with ⟨answer, after⟩
    rw [h] at silent
    cases silent
    rw [watch_cons_of_silence h]
    exact ih after

theorem watch_seen_prefix (v : Visitor σ ο) (events : List Event) (state : σ) :
    (v.watch events state).seen <+: events := by
  induction events generalizing state with
  | nil => exact List.prefix_rfl
  | cons event rest ih =>
    rcases h : v.react event state with ⟨_ | answer, after⟩
    · rw [watch_cons_of_silence h]
      exact (List.prefix_cons_inj event).mpr (ih after)
    · rw [watch_cons_of_answer h]
      exact ⟨rest, rfl⟩

end Visitor

namespace Scan

variable {σ ο : Type} (s : Scan σ ο) (history : List Operation) (strategy : Strategy)
  (source : Element)

def logAfter : List Event := (s.run strategy source (s.scanner.memoAfter history)).log

theorem logAfter_eq : s.logAfter history strategy source = (s.watched strategy source).seen := by
  obtain ⟨after, _, ran⟩ := s.run_eq strategy source (s.scanner.memoAfter_faithful history)
  rw [logAfter, ran]

theorem logAfter_prefix :
    s.logAfter history strategy source <+: s.terrain.events s.depth strategy source := by
  rw [logAfter_eq]
  exact s.visitor.watch_seen_prefix _ _

theorem logAfter_of_patient (patient : s.visitor.Patient) :
    s.logAfter history strategy source = s.terrain.events s.depth strategy source := by
  rw [logAfter_eq]
  exact Visitor.seen_of_silence (patient.watch _ _)

theorem typeCount_le_depth : s.scanner.catalog.typeCount ≤ s.depth :=
  Nat.le_mul_of_pos_right _ (Nat.succ_pos _)

theorem exists_depth_eq_succ {id : TypeId} (present : s.scanner.catalog.isPresent id = true) :
    ∃ fuel, s.depth = fuel + 1 := by
  obtain ⟨decl, found, _⟩ := Catalog.load_of_present present
  have issued := Catalog.index_lt_of_type? found
  exact Nat.exists_eq_add_one.mpr (Nat.zero_lt_of_lt (issued.trans_le s.typeCount_le_depth))

end Scan

namespace Terrain

variable {t : Terrain}

def shown (t : Terrain) (e : Element) : Except QueryError (List Slot) := do
  let owner ← t.owner e
  if owner.any t.rejects then pure [] else t.scanner.freshSlots e

theorem declared_eq_ask (e : Element) : t.declared e = Course.ask (t.shown e) := by
  unfold declared shown
  cases t.owner e with
  | error e => rfl
  | ok owner =>
    show (if owner.any t.rejects = true then pure [] else _) = Course.ask (if _ then _ else _)
    split
    · rfl
    · rfl

theorem shown_of_unfiltered (unfiltered : ∀ id, t.rejects id = false) (e : Element) :
    t.shown e = t.scanner.freshSlots e := by
  have kept (owner : Option TypeId) : owner.any t.rejects = false := by
    cases owner with
    | none => rfl
    | some id => exact unfiltered id
  unfold shown
  simp only [kept, Bool.false_eq_true, ↓reduceIte]
  cases e with
  | type id | parameter owner index => rfl
  | member id =>
    simp only [owner, Scanner.freshSlots, Catalog.declaredRecords, Catalog.loadElement,
      Catalog.loadMember]
    cases t.scanner.catalog.memberDecl id <;> rfl

theorem declared_unfiltered (unfiltered : ∀ id, t.rejects id = false) (e : Element) :
    t.declared e = Course.ask (t.scanner.freshSlots e) := by
  rw [declared_eq_ask, shown_of_unfiltered unfiltered]

end Terrain

end Lineage
