import Lineage.Proofs.Catalog.Built
import Lineage.Proofs.Scan.Deliveries
import Lineage.Proofs.Scan.Depth

namespace Lineage

namespace Event

def raise (levels : Nat) : Event → Event
  | .enter index => .enter (levels + index)
  | .records index source slots => .records (levels + index) source slots
  | .failure on e => .failure on e

def stack : Nat → List (List Event) → List Event
  | _, [] => []
  | shown, log :: rest => log.map (raise shown) ++ stack (shown + (deliveries log).length) rest

theorem raise_raise (first more : Nat) (event : Event) :
    raise more (raise first event) = raise (more + first) event := by
  cases event with
  | enter index | records index source slots => rw [raise, raise, raise, Nat.add_assoc]
  | failure on e => rfl

theorem raise_zero (log : List Event) : log.map (raise 0) = log := by
  have same (event : Event) : raise 0 event = event := by
    cases event with
    | enter index | records index source slots => rw [raise, Nat.zero_add]
    | failure on e => rfl
  rw [List.map_congr_left fun event _ => same event, List.map_id']

theorem length_deliveries_raise (levels : Nat) (log : List Event) :
    (deliveries (log.map (raise levels))).length = (deliveries log).length := by
  induction log with
  | nil => rfl
  | cons event rest ih =>
    cases event with
    | enter _ | failure _ _ => exact ih
    | records _ _ _ => exact congrArg (· + 1) ih

end Event

namespace Course

variable {P : ∀ α : Type, Course α → Prop}

structure Kept (P : ∀ α : Type, Course α → Prop) : Prop where
  ask : ∀ {α : Type} (answer : Except QueryError α), P α (ask answer)
  report : ∀ on e, P Unit (report on e)
  entering : P Unit (do enter (← index))
  showing : ∀ on slots, P Unit (do deliver (← index) on slots; advance)
  bind : ∀ {α β : Type} {c : Course α} {next : α → Course β},
    P α c → (∀ a, P β (next a)) → P β (c >>= next)
  contain : ∀ {c : Course Unit} (on : Element), P Unit c → P Unit (c.contain on)

theorem Kept.pure {α : Type} (kept : Kept P) (a : α) : P α (pure a) := kept.ask (.ok a)

theorem Kept.forM {β : Type} {walk : β → Course Unit} (kept : Kept P) (each : ∀ b, P Unit (walk b))
    (bs : List β) : P Unit (bs.forM walk) := by
  induction bs with
  | nil => exact kept.pure ()
  | cons b bs ih => exact kept.bind (each b) fun _ => ih

theorem Kept.typeFrom {t : Terrain} (kept : Kept P) (reach : Scan.Reach) (fuel : Nat) (id : TypeId) :
    P Unit (t.typeFrom reach fuel id) := by
  induction fuel generalizing id with
  | zero => exact kept.pure ()
  | succ fuel ih =>
    have sideways : P Unit (t.sideways reach.interfaces (t.typeFrom reach fuel) id) := by
      unfold Terrain.sideways
      split
      · exact kept.bind (kept.ask _) fun above => kept.forM ih above
      · exact kept.pure ()
    have upward : P Unit (t.upward (t.typeFrom reach fuel) id) := by
      refine kept.bind (kept.bind (kept.ask _) fun _ => kept.pure _) fun above => ?_
      cases above with
      | some above => exact ih above
      | none => exact kept.pure ()
    have outward : P Unit (t.outward reach.enclosing (t.typeFrom reach fuel) id) := by
      unfold Terrain.outward
      split
      · rcases t.scanner.catalog.enclosing id with e | _ | outer
        · exact kept.report _ e
        · exact kept.pure ()
        · exact ih outer
      · exact kept.pure ()
    have onward := kept.bind sideways fun _ => kept.bind upward fun _ => outward
    have visit (plain : Bool) : P Unit (if plain then Pure.pure () else do
        let slots ← Course.ask (t.shown (.type id))
        deliver (← index) (.type id) slots
        advance
        t.sideways reach.interfaces (t.typeFrom reach fuel) id
        t.upward (t.typeFrom reach fuel) id
        t.outward reach.enclosing (t.typeFrom reach fuel) id) := by
      split
      · exact kept.pure ()
      · have shown (slots : List Slot) := kept.bind (kept.showing (.type id) slots) fun _ => onward
        exact kept.bind (kept.ask _) shown
    have entered := kept.bind kept.entering fun _ =>
      kept.bind (kept.ask (t.scanner.isPlainType id)) visit
    unfold Terrain.typeFrom
    rw [Terrain.declared_eq_ask]
    exact kept.contain _ entered

variable {α β : Type} {c d : Course α}

/-- From every level on a course does the same, only so many levels further, and it ends as many
    levels further as it shows. -/
def Steady (c : Course α) : Prop := ∀ level, c.run level =
  ⟨(c.run 0).answer, level + (Event.deliveries (c.run 0).events).length,
    (c.run 0).events.map (Event.raise level)⟩

theorem Steady.bind {next : α → Course β} (first : Steady c) (rest : ∀ a, Steady (next a)) :
    Steady (c >>= next) := by
  intro level
  have answers : (c.run level).answer = (c.run 0).answer := by rw [first level]
  cases ended : (c.run 0).answer with
  | error e =>
    rw [run_bind_of_error (answers.trans ended), run_bind_of_error ended, first level]
  | ok a =>
    have start : (c.run 0).index = (Event.deliveries (c.run 0).events).length := by
      rw [first 0, Nat.zero_add, Event.raise_zero]
    rw [run_bind_of_ok (answers.trans ended), run_bind_of_ok ended, rest a (c.run level).index,
      rest a (c.run 0).index, first level, start]
    simp only [Event.deliveries_append, List.length_append, Event.length_deliveries_raise,
      List.map_append, List.map_map, Function.comp_def, Event.raise_raise, Nat.add_assoc]

theorem Steady.contain {c : Course Unit} (steady : Steady c) (on : Element) :
    Steady (c.contain on) := by
  intro level
  have answers : (c.run level).answer = (c.run 0).answer := by rw [steady level]
  cases ended : (c.run 0).answer with
  | ok u =>
    rw [run_contain_of_ok (answers.trans ended), run_contain_of_ok ended, steady level]
  | error e =>
    rw [run_contain_of_error (answers.trans ended), run_contain_of_error ended, steady level]
    simp only [Event.deliveries_append, List.length_append, List.map_append]
    rfl

theorem Steady.kept : Kept fun _ c => Steady c where
  ask _ _ := rfl
  report _ _ _ := rfl
  entering _ := rfl
  showing _ _ _ := rfl
  bind := .bind
  contain on steady := steady.contain on

theorem contain_answer (on : Element) (c : Course Unit) (level : Nat) :
    ((c.contain on).run level).answer = .ok () := by
  cases ended : (c.run level).answer with
  | ok u => rw [run_contain_of_ok ended, ended]
  | error e => rw [run_contain_of_error ended]

theorem forM_answer {walk : β → Course Unit}
    (ends : ∀ b level, ((walk b).run level).answer = .ok ()) (bs : List β) (level : Nat) :
    ((bs.forM walk).run level).answer = .ok () := by
  induction bs generalizing level with
  | nil => rfl
  | cons b rest ih =>
    have whole : ((b :: rest).forM walk).run level = _ :=
      run_bind_of_ok (ends b level) fun _ => rest.forM walk
    rw [whole]
    exact ih _

theorem forM_run {walk : β → Course Unit} {bs : List β} (steady : ∀ b ∈ bs, Steady (walk b))
    (ends : ∀ b ∈ bs, ∀ level, ((walk b).run level).answer = .ok ()) (level : Nat) :
    ((bs.forM walk).run level).answer = .ok () ∧
      ((bs.forM walk).run level).events =
        Event.stack level (bs.map fun b => ((walk b).run 0).events) := by
  induction bs generalizing level with
  | nil => exact ⟨rfl, rfl⟩
  | cons b rest ih =>
    have first := steady b List.mem_cons_self level
    have whole : ((b :: rest).forM walk).run level = _ :=
      run_bind_of_ok (ends b List.mem_cons_self level) fun _ => rest.forM walk
    obtain ⟨answer, events⟩ := ih (fun other member => steady other (List.mem_cons_of_mem _ member))
      (fun other member => ends other (List.mem_cons_of_mem _ member)) ((walk b).run level).index
    rw [whole]
    refine ⟨answer, ?_⟩
    show ((walk b).run level).events ++ _ = _
    rw [events, first, List.map_cons, Event.stack]

end Course

namespace Terrain

open Course

variable {t : Terrain} {source : TypeId} {fuel : Nat} {reach : Scan.Reach}

theorem typeFrom_answer (reach : Scan.Reach) (fuel : Nat) (id : TypeId) (level : Nat) :
    ((t.typeFrom reach fuel id).run level).answer = .ok () := by
  cases fuel with
  | zero => rfl
  | succ fuel => exact contain_answer _ _ level

/-- A walk of a hierarchy whose links can be loaded goes on to all that they lead to. -/
theorem onward_eq_forM {walk : TypeId → Course Unit} {ids : List TypeId} {above : Option TypeId}
    (implements : t.scanner.catalog.interfaces source = .ok ids)
    (extended : t.scanner.catalog.superclass source = .ok above) :
    (do t.sideways true walk source; t.upward walk source : Course Unit) =
      (ids ++ (above.filter (· != Catalog.root)).toList).forM walk := by
  refine .trans ?_ List.forM_append.symm
  unfold sideways upward properSuperclass
  rw [if_pos rfl, implements, extended, ask_ok, ask_ok, pure_bind]
  cases above.filter (· != Catalog.root) with
  | none => rfl
  | some next =>
    have single : [next].forM walk = walk next := bind_pure_unit
    exact congrArg (ids.forM walk >>= fun _ => ·) single.symm

theorem typeFrom_run_zero {slots : List Slot} {ids : List TypeId} {above : Option TypeId}
    (notPlain : t.scanner.isPlainType source = .ok false)
    (own : t.shown (.type source) = .ok slots)
    (implements : t.scanner.catalog.interfaces source = .ok ids)
    (extended : t.scanner.catalog.superclass source = .ok above) :
    ((t.typeFrom ⟨true, false⟩ (fuel + 1) source).run 0).events =
      Event.stack 0 ([.enter 0, .records 0 (.type source) slots] ::
        (ids ++ (above.filter (· != Catalog.root)).toList).map fun next =>
          ((t.typeFrom ⟨true, false⟩ fuel next).run 0).events) := by
  let walk := t.typeFrom ⟨true, false⟩ fuel
  let branches := ids ++ (above.filter (· != Catalog.root)).toList
  have steady : ∀ next ∈ branches, Steady (walk next) :=
    fun next _ => Steady.kept.typeFrom ⟨true, false⟩ fuel next
  have answers : ∀ next ∈ branches, ∀ level, ((walk next).run level).answer = .ok () :=
    fun next _ => t.typeFrom_answer ⟨true, false⟩ fuel next
  obtain ⟨ends, events⟩ := forM_run steady answers 1
  have onward : (do t.sideways true walk source; t.upward walk source : Course Unit) =
      branches.forM walk := onward_eq_forM implements extended
  have body : t.typeFrom ⟨true, false⟩ (fuel + 1) source = contain (.type source) (do
      enter (← index)
      deliver (← index) (.type source) slots
      advance
      branches.forM walk) := by
    rw [← onward]
    unfold typeFrom
    rw [notPlain, declared_eq_ask, own]
    simp only [ask_ok, Bool.false_eq_true, ↓reduceIte, outward, bind_pure_unit]
    rfl
  have ran : (do
      enter (← index)
      deliver (← index) (.type source) slots
      advance
      branches.forM walk : Course Unit).run 0 =
      ⟨((branches.forM walk).run 1).answer, ((branches.forM walk).run 1).index,
        [.enter 0, .records 0 (.type source) slots] ++ ((branches.forM walk).run 1).events⟩ := rfl
  rw [body, run_contain_of_ok ((congrArg Passage.answer ran).trans ends), ran, events]
  rfl

end Terrain

namespace Scan

variable {σ ο : Type}

/-- A walk of the hierarchy of a type whose links can be loaded shows the type itself and then, link
    after link, what a walk of its own shows there, only so many levels further as were shown before. -/
theorem hierarchy_shows_branches (s : Scan σ ο) (history : List Operation)
    (alone : TypeId → List Operation) {source : TypeId} {ids : List TypeId} {above : Option TypeId}
    (patient : s.visitor.Patient) (acyclic : s.scanner.catalog.Acyclic)
    (notPlain : s.scanner.isPlainType source = .ok false)
    (implements : s.scanner.catalog.interfaces source = .ok ids)
    (extended : s.scanner.catalog.superclass source = .ok above) :
    ∃ slots,
      (if s.rejects source then .ok []
        else ((s.scanner.declared (.type source)).answered .empty).1) = .ok slots ∧
      s.logAfter history .hierarchy (.type source) =
        Event.stack 0 ([.enter 0, .records 0 (.type source) slots] ::
          (ids ++ (above.filter (· != Catalog.root)).toList).map fun next =>
            s.logAfter (alone next) .hierarchy (.type next)) := by
  obtain ⟨decl, loaded, _⟩ := bind_ok implements
  have present := (Catalog.present_of_load loaded).2
  have fresh := Scanner.freshSlots_of_present (s := s.scanner) present
  have asked := ((s.scanner.declared_settles (.type source)).answered (.empty s.scanner)).1
  obtain ⟨slots, own⟩ : ∃ slots, s.terrain.shown (.type source) = .ok slots := by
    show ∃ slots, (if s.rejects source then .ok [] else s.scanner.freshSlots (.type source)) = _
    rw [fresh]
    split <;> exact ⟨_, rfl⟩
  refine ⟨slots, by rw [asked]; exact own, ?_⟩
  obtain ⟨fuel, deep⟩ := s.exists_depth_eq_succ present
  have lasts (id : TypeId) : s.scanner.catalog.Lasts (fuel + 1) id :=
    ⟨Nat.succ_pos fuel, Catalog.rank_le_typeCount.trans (deep ▸ s.typeCount_le_depth)⟩
  rw [s.logAfter_of_patient history .hierarchy _ patient]
  show ((s.terrain.typeFrom ⟨true, false⟩ s.depth source).run 0).events = _
  rw [deep, Terrain.typeFrom_run_zero notPlain own implements extended]
  congr 2
  refine List.map_congr_left fun next member => ?_
  have crosses : s.scanner.catalog.Crosses source next := by
    rcases List.mem_append.mp member with sideways | upward
    · exact Catalog.crosses_of_interfaces implements sideways
    · obtain ⟨reached, _⟩ := Option.filter_eq_some_iff.mp (Option.mem_toList.mp upward)
      exact Catalog.crosses_of_superclass (extended.trans (congrArg _ reached))
  -- a walk of its own has more fuel, but no more than is enough
  rw [s.logAfter_of_patient (alone next) .hierarchy _ patient,
    Terrain.typeFrom_settled (t := s.terrain) acyclic ⟨true, false⟩
      ((lasts source).next acyclic crosses) (lasts next), ← deep]
  rfl

def forked : Scan (List Level) (List Level) where
  scanner := ⟨.ofDecls [Catalog.rootDecl,
    ⟨⟨1⟩, "mark.Seen", .recordKind, [], none, [], none, false, true⟩,
    ⟨⟨2⟩, "ext.Missing", .classType, [], none, [], none, false, false⟩,
    ⟨⟨3⟩, "shape.Torn", .interface, [], none, [⟨⟨2⟩, []⟩], none, false, true⟩,
    ⟨⟨4⟩, "shape.Whole", .interface, [], none, [], none, false, true⟩,
    ⟨⟨5⟩, "shape.Base", .classType, [], some ⟨⟨0⟩, []⟩, [⟨⟨4⟩, []⟩], none, false, true⟩,
    ⟨⟨6⟩, "shape.Low", .classType, [], some ⟨⟨5⟩, []⟩, [⟨⟨3⟩, []⟩, ⟨⟨4⟩, []⟩], none, false, true⟩]
    [] [(.type ⟨4⟩, .ofKind ⟨1⟩), (.type ⟨6⟩, .ofKind ⟨1⟩)], {}⟩
  visitor := .levels
  rejects id := id = ⟨6⟩

theorem forked_shows_branches :
    ∃ slots,
      (if forked.rejects ⟨6⟩ then .ok []
        else ((forked.scanner.declared (.type ⟨6⟩)).answered .empty).1) = .ok slots ∧
      forked.logAfter [.clear] .hierarchy (.type ⟨6⟩) =
        Event.stack 0 ([.enter 0, .records 0 (.type ⟨6⟩) slots] ::
          [⟨3⟩, ⟨4⟩, ⟨5⟩].map fun next => forked.logAfter [] .hierarchy (.type next)) := by
  have falls : forked.scanner.catalog.Falls TypeDecl.links TypeId.index := by decide
  have implements : forked.scanner.catalog.interfaces ⟨6⟩ = .ok [⟨3⟩, ⟨4⟩] := rfl
  have extended : forked.scanner.catalog.superclass ⟨6⟩ = .ok (some ⟨5⟩) := rfl
  exact hierarchy_shows_branches forked [.clear] (fun _ => []) Visitor.levels_patient falls.acyclic
    rfl implements extended

example : (Event.failures (forked.logAfter [] .hierarchy (.type ⟨6⟩))).map (·.1) = [.type ⟨3⟩] := by
  decide +kernel

end Scan

end Lineage
