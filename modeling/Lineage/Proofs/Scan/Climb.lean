import Lineage.Proofs.Scan.Apart

namespace Lineage

inductive Route (onward : TypeId → List TypeId) : List TypeId → List TypeId → Prop
  | done : Route onward [] []
  | visit {id : TypeId} {left rest : List TypeId} :
    Route onward (onward id ++ left) rest → Route onward (id :: left) (id :: rest)

namespace Route

variable {onward : TypeId → List TypeId} {types more stops others : List TypeId} {id : TypeId}

theorem unique (route : Route onward types stops) (other : Route onward types others) :
    stops = others := by
  induction route generalizing others with
  | done =>
    cases other
    rfl
  | visit _ ih =>
    cases other with
    | visit further => rw [ih further]

theorem append (first : Route onward types stops) (rest : Route onward more others) :
    Route onward (types ++ more) (stops ++ others) := by
  induction first with
  | done => exact rest
  | visit _ ih =>
    rw [List.append_assoc] at ih
    exact .visit ih

theorem from_onward (route : Route onward (onward id) stops) : Route onward [id] (id :: stops) := by
  refine .visit ?_
  rw [List.append_nil]
  exact route

end Route

namespace Event

def isFailure : Event → Bool
  | .failure _ _ => true
  | .enter _ | .records _ _ _ => false

def toVisitor (log : List Event) : List Event := log.filter (!isFailure ·)

theorem levelsApart_toVisitor (log : List Event) : LevelsApart (toVisitor log) ↔ LevelsApart log := by
  refine ⟨fun apart => ?_, fun apart => ?_⟩
  · intro first later on other slots further entry within
    exact apart first later on other slots further entry (within.filter (!isFailure ·))
  · intro first later on other slots further entry within
    exact apart first later on other slots further entry (within.trans List.filter_sublist)

def callsAt (level : Nat) (calls : List Delivery) : List Event :=
  calls.map fun d => .records level d.source d.slots

theorem deliveries_callsAt (level : Nat) (calls : List Delivery) :
    deliveries (callsAt level calls) = calls.map fun d => ⟨level, d.source, d.slots⟩ := by
  rw [deliveries, callsAt, List.filterMap_map, ← List.filterMap_eq_map]
  rfl

theorem callsAt_deliveries (first level : Nat) (calls : List Delivery) :
    callsAt level (deliveries (callsAt first calls)) = callsAt level calls := by
  rw [deliveries_callsAt, callsAt, List.map_map]
  rfl

theorem toVisitor_callsAt (level : Nat) (calls : List Delivery) :
    toVisitor (callsAt level calls) = callsAt level calls := by
  refine List.filter_eq_self.mpr fun event made => ?_
  obtain ⟨d, _, rfl⟩ := List.mem_map.mp made
  rfl

/-- Some calls on a type are apart from those on the types after it if these are at higher levels. -/
theorem levelsApart_visit (level : Nat) (calls : List Delivery) {log : List Event}
    (opens : ∀ d ∈ deliveries log,
      ∃ entry, [.enter entry, .records d.index d.source d.slots].Sublist log) :
    LevelsApart (.enter level :: (callsAt level calls ++ log)) ↔
      (calls ≠ [] → ∀ d ∈ deliveries log, level < d.index) ∧ LevelsApart log := by
  constructor
  · intro apart
    refine ⟨fun some d made => ?_, ?_⟩
    · obtain ⟨first, rest, rfl⟩ := List.exists_cons_of_ne_nil some
      obtain ⟨entry, later⟩ := opens d made
      have before : [.records level first.source first.slots].Sublist
          (callsAt level (first :: rest)) := List.singleton_sublist.mpr List.mem_cons_self
      exact apart level d.index first.source d.source first.slots d.slots entry
        ((before.append later).cons _)
    · intro first later on other slots further entry within
      exact apart first later on other slots further entry
        ((within.trans (List.sublist_append_right _ _)).cons _)
  · rintro ⟨higher, apart⟩ first later on other slots further entry within
    cases within with
    | cons _ within =>
      obtain ⟨here, there, split, called, after⟩ := List.sublist_append_iff.mp within
      -- the entry between the two calls belongs to what comes after
      match here with
      | [] =>
        rw [List.nil_append] at split
        exact apart first later on other slots further entry (split ▸ after)
      | [call] =>
        obtain ⟨rfl, rfl⟩ := List.cons_eq_cons.mp split
        obtain ⟨d, made, same⟩ := List.mem_map.mp (called.subset List.mem_cons_self)
        cases same
        have made : (⟨later, other, further⟩ : Delivery) ∈ deliveries log :=
          List.mem_filterMap.mpr ⟨.records later other further, after.subset (by simp), rfl⟩
        exact higher (List.ne_nil_of_mem ‹d ∈ calls›) _ made
      | call :: between :: here =>
        obtain ⟨rfl, left⟩ := List.cons_eq_cons.mp split
        obtain ⟨rfl, _⟩ := List.cons_eq_cons.mp left
        have made : .enter entry ∈ callsAt level calls := called.subset (by simp)
        obtain ⟨_, _, same⟩ := List.mem_map.mp made
        cases same

/-- A walk of some types as the visitor sees it. Each is entered at the level where the walk is, then
    come the calls there, and where the walk moves on they end the level. -/
def weave (calls : TypeId → List Delivery) (moves : TypeId → Bool) :
    Nat → List TypeId → List Event
  | _, [] => []
  | level, id :: rest =>
    .enter level :: (callsAt level (calls id) ++
      weave calls moves (level + if moves id then 1 else 0) rest)

variable {calls : TypeId → List Delivery} {moves : TypeId → Bool} {level : Nat}
  {stops more : List TypeId}

theorem weave_append (level : Nat) : weave calls moves level (stops ++ more) =
    weave calls moves level stops ++ weave calls moves (level + stops.countP moves) more := by
  induction stops generalizing level with
  | nil => rfl
  | cons id rest ih =>
    rw [List.cons_append, weave, weave, ih, List.countP_cons, Nat.add_assoc,
      Nat.add_comm (rest.countP moves), List.cons_append, List.append_assoc]

theorem le_of_mem_weave {d : Delivery} (made : d ∈ deliveries (weave calls moves level stops)) :
    level ≤ d.index := by
  induction stops generalizing level with
  | nil => cases made
  | cons id rest ih =>
    have made : d ∈ deliveries (callsAt level (calls id) ++ weave calls moves _ rest) := made
    rw [deliveries_append, deliveries_callsAt] at made
    rcases List.mem_append.mp made with here | further
    · obtain ⟨_, _, rfl⟩ := List.mem_map.mp here
      exact Nat.le_refl level
    · exact (Nat.le_add_right level _).trans (ih further)

theorem entry_before_call {d : Delivery} (made : d ∈ deliveries (weave calls moves level stops)) :
    ∃ entry, [.enter entry, .records d.index d.source d.slots].Sublist
      (weave calls moves level stops) := by
  cases stops with
  | nil => cases made
  | cons id rest =>
    obtain ⟨event, listed, same⟩ := List.mem_filterMap.mp made
    rcases List.mem_cons.mp listed with rfl | after
    · cases same
    · cases event with
      | enter _ | failure _ _ => cases same
      | records _ _ _ =>
        cases same
        exact ⟨level, (List.singleton_sublist.mpr after).cons_cons _⟩

theorem deliveries_weave_eq_nil (none : ∀ id ∈ stops, calls id = []) :
    deliveries (weave calls moves level stops) = [] := by
  induction stops generalizing level with
  | nil => rfl
  | cons id rest ih =>
    show deliveries (callsAt level (calls id) ++ weave calls moves _ rest) = []
    rw [none id List.mem_cons_self]
    exact ih fun later listed => none later (List.mem_cons_of_mem _ listed)

section

variable (shown : ∀ id, moves id = true → calls id ≠ [])
include shown

/-- The first call of a walk is at the level where it begins. -/
theorem first_call_of_weave {id : TypeId} (level : Nat) (listed : id ∈ stops)
    (some : calls id ≠ []) : ∃ d ∈ deliveries (weave calls moves level stops), d.index = level := by
  induction stops with
  | nil => cases listed
  | cons stop rest ih =>
    have split : deliveries (weave calls moves level (stop :: rest)) =
        deliveries (callsAt level (calls stop) ++
          weave calls moves (level + if moves stop then 1 else 0) rest) := rfl
    rw [split, deliveries_append, deliveries_callsAt]
    cases here : calls stop with
    | cons d others => exact ⟨⟨level, d.source, d.slots⟩, by simp, rfl⟩
    | nil =>
      have stays : moves stop = false := by
        by_contra on
        exact shown stop (by simpa using on) here
      have listed : id ∈ rest := by
        rcases List.mem_cons.mp listed with rfl | listed
        · exact absurd here some
        · exact listed
      rw [stays]
      exact ih listed

/-- The levels of a walk are apart just if it makes no more calls after it calls and does not move
    on. -/
theorem levelsApart_weave : LevelsApart (weave calls moves level stops) ↔
    stops.Pairwise fun first later => calls first ≠ [] → moves first = false → calls later = [] := by
  induction stops generalizing level with
  | nil =>
    refine ⟨fun _ => .nil, fun _ => ?_⟩
    intro first later on other slots further entry within
    cases within
  | cons id rest ih =>
    rw [weave, levelsApart_visit level (calls id) fun d => entry_before_call, ih, List.pairwise_cons]
    refine and_congr_left fun _ => ?_
    cases moves id with
    | true =>
      refine ⟨fun _ _ _ _ none => ?_, fun _ _ d made => le_of_mem_weave made⟩
      cases none
    | false =>
      refine ⟨fun higher later listed some _ => ?_, fun silent some d made => ?_⟩
      · by_contra further
        obtain ⟨d, made, same⟩ := first_call_of_weave shown level listed further
        have above : level < d.index := higher some d made
        omega
      · rw [deliveries_weave_eq_nil fun later listed => silent later listed some rfl] at made
        cases made

end

end Event

namespace Course

variable {α β : Type} {c : Course α} {answer : Except QueryError α} {made more : List Delivery}

def Calls (c : Course α) (answer : Except QueryError α) (made : List Delivery) : Prop :=
  ∀ level, c.run level = ⟨answer, level, Event.callsAt level made⟩

theorem Calls.bind {a : α} {next : α → Course β} {last : Except QueryError β}
    (first : Calls c (.ok a) made) (rest : Calls (next a) last more) :
    Calls (c >>= next) last (made ++ more) := by
  intro level
  have ended : (c.run level).answer = .ok a := by rw [first level]
  have after : (next a).run (c.run level).index = ⟨last, level, Event.callsAt level more⟩ := by
    rw [first level]
    exact rest level
  rw [run_bind_of_ok ended, after, first level]
  simp only [Event.callsAt, List.map_append]

theorem Calls.bind_of_error {e : QueryError} (failed : Calls c (.error e) made)
    (next : α → Course β) : Calls (c >>= next) (.error e) made := by
  intro level
  have ended : (c.run level).answer = .error e := by rw [failed level]
  rw [run_bind_of_error ended, failed level]

section

variable {onward : TypeId → List TypeId} {calls : TypeId → List Delivery} {moves : TypeId → Bool}
  {c d : Course Unit} {types more stops : List TypeId} {id : TypeId}

def Weaves (calls : TypeId → List Delivery) (moves : TypeId → Bool) (c : Course Unit)
    (stops : List TypeId) : Prop :=
  ∀ level, (c.run level).index = level + stops.countP moves ∧
    Event.toVisitor (c.run level).events = Event.weave calls moves level stops

def Climbs (onward : TypeId → List TypeId) (calls : TypeId → List Delivery) (moves : TypeId → Bool)
    (c : Course Unit) (types : List TypeId) : Prop :=
  ∃ stops, Route onward types stops ∧ Weaves calls moves c stops

theorem Climbs.ask (answer : Except QueryError Unit) : Climbs onward calls moves (ask answer) [] :=
  ⟨[], .done, fun _ => ⟨rfl, rfl⟩⟩

theorem Climbs.append (first : Climbs onward calls moves c types)
    (ends : ∀ level, (c.run level).answer = .ok ()) (rest : Climbs onward calls moves d more) :
    Climbs onward calls moves (c >>= fun _ => d) (types ++ more) := by
  obtain ⟨stops, route, woven⟩ := first
  obtain ⟨further, routeOn, wovenOn⟩ := rest
  refine ⟨stops ++ further, route.append routeOn, fun level => ?_⟩
  obtain ⟨index, events⟩ := woven level
  obtain ⟨indexOn, eventsOn⟩ := wovenOn (c.run level).index
  rw [run_bind_of_ok (ends level)]
  refine ⟨?_, ?_⟩
  · rw [List.countP_append, ← Nat.add_assoc, ← index]
    exact indexOn
  · rw [Event.weave_append, ← index, ← events, ← eventsOn]
    exact List.filter_append _ _

theorem Climbs.forM {walk : TypeId → Course Unit} {ids : List TypeId}
    (ends : ∀ id level, ((walk id).run level).answer = .ok ())
    (each : ∀ id ∈ ids, Climbs onward calls moves (walk id) [id]) :
    Climbs onward calls moves (ids.forM walk) ids := by
  induction ids with
  | nil => exact .ask (.ok ())
  | cons id rest ih =>
    exact (each id List.mem_cons_self).append (ends id)
      (ih fun other listed => each other (List.mem_cons_of_mem _ listed))

theorem Climbs.contain (climbs : Climbs onward calls moves c types) (on : Element) :
    Climbs onward calls moves (c.contain on) types := by
  obtain ⟨stops, route, woven⟩ := climbs
  refine ⟨stops, route, fun level => ?_⟩
  obtain ⟨index, events⟩ := woven level
  cases ended : (c.run level).answer with
  | ok u =>
    rw [run_contain_of_ok ended]
    exact ⟨index, events⟩
  | error e =>
    rw [run_contain_of_error ended]
    refine ⟨index, ?_⟩
    rw [← events]
    exact (List.filter_append _ _).trans (List.append_nil _)

/-- A type is entered and its calls made, and then the course goes on where it leads. -/
theorem Climbs.visit (rest : Climbs onward calls moves d (onward id))
    (ran : ∀ level,
      let after := d.run (level + if moves id then 1 else 0)
      (c.run level).index = after.index ∧
        (c.run level).events = Event.callsAt level (calls id) ++ after.events) :
    Climbs onward calls moves (do enter (← index); c) [id] := by
  obtain ⟨stops, route, woven⟩ := rest
  refine ⟨id :: stops, route.from_onward, fun level => ?_⟩
  obtain ⟨index, events⟩ := ran level
  obtain ⟨indexOn, eventsOn⟩ := woven (level + if moves id then 1 else 0)
  refine ⟨?_, ?_⟩
  · show (c.run level).index = _
    rw [index, indexOn, List.countP_cons, Nat.add_assoc, Nat.add_comm (stops.countP moves)]
  · show Event.toVisitor (.enter level :: (c.run level).events) = _
    rw [events, Event.weave, ← eventsOn]
    refine congrArg (Event.enter level :: ·) ((List.filter_append _ _).trans ?_)
    exact congrArg (· ++ _) (Event.toVisitor_callsAt level (calls id))

theorem Climbs.levelsApart_iff (climbs : Climbs onward calls moves c types)
    (shown : ∀ id, moves id = true → calls id ≠ []) :
    Event.LevelsApart (c.run 0).events ↔ ∀ stops, Route onward types stops →
      stops.Pairwise fun first later => calls first ≠ [] → moves first = false → calls later = [] := by
  obtain ⟨stops, route, woven⟩ := climbs
  rw [← Event.levelsApart_toVisitor, (woven 0).2, Event.levelsApart_weave shown]
  refine ⟨fun apart others other => ?_, fun apart => apart stops route⟩
  rw [other.unique route]
  exact apart

end

end Course

def Catalog.followed (c : Catalog) (interfaces : Bool) (id : TypeId) : List TypeId :=
  match if interfaces then c.interfaces id else .ok [] with
  | .error _ => []
  | .ok ids => ids ++
    match c.superclass id with
    | .error _ => []
    | .ok above => (above.filter (· != Catalog.root)).toList

namespace Terrain

open Course

def visit (t : Terrain) (member : MemberId) (declaring id : TypeId) : Course (Option Bool) := do
  let plain ← ask (t.scanner.isPlainType id)
  if plain then pure none
  else
    let called ← t.memberLevel member declaring id
    pure (some called)

def callsOn (t : Terrain) (member : MemberId) (declaring id : TypeId) : List Delivery :=
  Event.deliveries ((t.visit member declaring id).run 0).events

/-- A walk for a member makes a call on a type and then fails, before it counts the type as a level. -/
def Breaks (t : Terrain) (member : MemberId) (declaring id : TypeId) : Prop :=
  t.callsOn member declaring id ≠ [] ∧ ∃ e, ((t.visit member declaring id).run 0).answer = .error e

def onward (t : Terrain) (interfaces : Bool) (member : MemberId) (declaring id : TypeId) :
    List TypeId :=
  match ((t.visit member declaring id).run 0).answer with
  | .ok (some _) => t.scanner.catalog.followed interfaces id
  | .ok none | .error _ => []

def Unbroken (t : Terrain) (interfaces : Bool) (member : MemberId) : Prop :=
  ∀ decl, t.scanner.catalog.memberDecl member = .ok decl → decl.isPrivate = false →
    ∀ stops, Route (t.onward interfaces member decl.declaring) [decl.declaring] stops →
      stops.Pairwise fun first later =>
        t.Breaks member decl.declaring first → t.callsOn member decl.declaring later = []

variable {t : Terrain} {member : MemberId} {declaring id : TypeId}

theorem memberRecords_calls (id : MemberId) : ∃ answer made,
    Calls (do t.memberRecords (← index) id) answer made ∧ (answer = .ok () → made ≠ []) := by
  show ∃ answer made, (∀ level, (t.memberRecords level id).run level = _) ∧ _
  unfold memberRecords
  simp only [declared_eq_ask]
  cases t.shown (.member id) with
  | error e => exact ⟨.error e, [], fun _ => rfl, fun none => by cases none⟩
  | ok own =>
    let call : Delivery := ⟨0, .member id, own⟩
    cases t.scanner.catalog.bridged id with
    | error e => exact ⟨.error e, [call], fun _ => rfl, fun none => by cases none⟩
    | ok target =>
      simp only [ask_ok]
      split
      · exact ⟨.ok (), [call], fun _ => rfl, fun _ => List.cons_ne_nil _ _⟩
      · cases t.shown (.member target) with
        | error e => exact ⟨.error e, [call], fun _ => rfl, fun none => by cases none⟩
        | ok others =>
          exact ⟨.ok (), [call, ⟨0, .member id, Scan.withoutShown own others⟩], fun _ => rfl,
            fun _ => List.cons_ne_nil _ _⟩

theorem showOverridden_calls (member : MemberId) (called : Bool) (candidates : List MemberId) :
    ∃ answer made, Calls (t.showOverridden member called candidates) answer made ∧
      ∀ b, answer = .ok b → b = (called || !made.isEmpty) := by
  induction candidates generalizing called with
  | nil =>
    refine ⟨.ok called, [], fun _ => rfl, fun b same => ?_⟩
    cases same
    exact (Bool.or_false called).symm
  | cons candidate rest ih =>
    unfold showOverridden
    rcases t.scanner.catalog.overrides member candidate with e | _ | _
    · exact ⟨.error e, [], fun _ => rfl, fun b none => by cases none⟩
    · exact ih called
    · rw [ask_ok, if_pos rfl, ← bind_assoc]
      obtain ⟨answer, made, calls, some⟩ := t.memberRecords_calls candidate
      cases answer with
      | error e => exact ⟨.error e, made, calls.bind_of_error _, fun b none => by cases none⟩
      | ok u =>
        obtain ⟨answer, more, further, called⟩ := ih true
        refine ⟨answer, made ++ more, calls.bind further, fun b same => ?_⟩
        rw [called b same]
        simp [some rfl]

theorem memberLevel_calls (member : MemberId) (declaring id : TypeId) :
    ∃ answer made, Calls (t.memberLevel member declaring id) answer made ∧
      ∀ b, answer = .ok b → b = !made.isEmpty := by
  unfold memberLevel
  split
  · obtain ⟨answer, made, calls, some⟩ := t.memberRecords_calls member
    cases answer with
    | error e => exact ⟨.error e, made, calls.bind_of_error _, fun b none => by cases none⟩
    | ok u =>
      have called : Calls (pure true) (.ok true) [] := fun _ => rfl
      refine ⟨.ok true, made ++ [], calls.bind called, fun b same => ?_⟩
      cases same
      simp [some rfl]
  · unfold candidates
    split
    · exact t.showOverridden_calls member false []
    · rcases t.scanner.freshMembers id with e | ids
      · exact ⟨.error e, [], fun _ => rfl, fun b none => by cases none⟩
      · exact t.showOverridden_calls member false ids

theorem visit_calls (member : MemberId) (declaring id : TypeId) :
    Calls (t.visit member declaring id) ((t.visit member declaring id).run 0).answer
        (t.callsOn member declaring id) ∧
      ∀ counted, ((t.visit member declaring id).run 0).answer = .ok counted →
        counted.getD false = !(t.callsOn member declaring id).isEmpty := by
  have whole : ∃ answer made, Calls (t.visit member declaring id) answer made ∧
      ∀ counted, answer = .ok counted → counted.getD false = !made.isEmpty := by
    unfold visit
    rcases t.scanner.isPlainType id with e | _ | _
    · exact ⟨.error e, [], fun _ => rfl, fun _ none => by cases none⟩
    · obtain ⟨answer, made, calls, called⟩ := t.memberLevel_calls member declaring id
      cases answer with
      | error e => exact ⟨.error e, made, calls.bind_of_error _, fun _ none => by cases none⟩
      | ok b =>
        have last : Calls (pure (some b)) (.ok (some b)) [] := fun _ => rfl
        refine ⟨.ok (some b), made ++ [], calls.bind last, fun counted same => ?_⟩
        cases same
        rw [List.append_nil]
        exact called b rfl
    · refine ⟨.ok none, [], fun _ => rfl, fun counted same => ?_⟩
      cases same
      rfl
  obtain ⟨answer, made, calls, called⟩ := whole
  unfold callsOn
  rw [calls 0]
  refine ⟨fun level => ?_, fun counted ended => ?_⟩
  · rw [calls level, Event.callsAt_deliveries]
  · rw [called counted ended, Event.deliveries_callsAt, List.isEmpty_map]

def moves (t : Terrain) (member : MemberId) (declaring id : TypeId) : Bool :=
  match ((t.visit member declaring id).run 0).answer with
  | .ok counted => counted.getD false
  | .error _ => false

theorem callsOn_of_moves (moves : t.moves member declaring id = true) :
    t.callsOn member declaring id ≠ [] := by
  unfold Terrain.moves at moves
  cases ended : ((t.visit member declaring id).run 0).answer with
  | error e =>
    rw [ended] at moves
    cases moves
  | ok counted =>
    rw [ended] at moves
    have some := (t.visit_calls member declaring id).2 counted ended
    rw [show counted.getD false = true from moves] at some
    simpa using some

theorem breaks_iff : t.Breaks member declaring id ↔
    t.callsOn member declaring id ≠ [] ∧ t.moves member declaring id = false := by
  refine and_congr_right fun some => ?_
  unfold moves
  cases ended : ((t.visit member declaring id).run 0).answer with
  | error e => exact ⟨fun _ => rfl, fun _ => ⟨e, rfl⟩⟩
  | ok counted =>
    have filled : (t.callsOn member declaring id).isEmpty = false := by simpa using some
    have moves := (t.visit_calls member declaring id).2 counted ended
    rw [filled] at moves
    refine ⟨fun failed => ?_, fun stays => ?_⟩
    · obtain ⟨_, none⟩ := failed
      cases none
    · cases moves.symm.trans stays

section

variable {walk : TypeId → Course Unit} {onward : TypeId → List TypeId}
  {calls : TypeId → List Delivery} {moves : TypeId → Bool}

theorem onward_climbs (interfaces : Bool)
    (ends : ∀ next level, ((walk next).run level).answer = .ok ())
    (each : ∀ next, t.scanner.catalog.Crosses id next →
      Climbs onward calls moves (walk next) [next]) :
    Climbs onward calls moves (do t.sideways interfaces walk id; t.upward walk id)
      (t.scanner.catalog.followed interfaces id) := by
  have upward : Climbs onward calls moves (t.upward walk id)
      (match t.scanner.catalog.superclass id with
        | .error _ => []
        | .ok above => (above.filter (· != Catalog.root)).toList) := by
    unfold Terrain.upward properSuperclass
    cases known : t.scanner.catalog.superclass id with
    | error e => exact .ask (.error e)
    | ok above =>
      simp only [ask_ok, pure_bind]
      cases proper : above.filter (· != Catalog.root) with
      | none => exact .ask (.ok ())
      | some next =>
        obtain ⟨reached, _⟩ := Option.filter_eq_some_iff.mp proper
        exact each next (Catalog.crosses_of_superclass (known.trans (congrArg _ reached)))
  unfold Terrain.sideways Catalog.followed
  cases interfaces with
  | false => exact upward
  | true =>
    simp only [↓reduceIte]
    cases known : t.scanner.catalog.interfaces id with
    | error e => exact .ask (.error e)
    | ok ids =>
      have sideways : Climbs onward calls moves (ids.forM walk) ids :=
        .forM ends fun next listed => each next (Catalog.crosses_of_interfaces known listed)
      exact sideways.append (forM_answer ends ids) upward

end

section

variable {decl : MemberDecl} {fuel : Nat} (known : t.scanner.catalog.memberDecl member = .ok decl)
include known

theorem memberFrom_visits (interfaces : Bool) :
    t.memberFrom interfaces member (fuel + 1) id = contain (.member member) (do
      enter (← index)
      match ← t.visit member decl.declaring id with
      | some called =>
        if decl.isPrivate then pure ()
        else
          if called then advance else pure ()
          t.sideways interfaces (t.memberFrom interfaces member fuel) id
          t.upward (t.memberFrom interfaces member fuel) id
      | none => pure ()) := by
  unfold memberFrom visit
  rw [known]
  rcases t.scanner.isPlainType id with e | _ | _
  · rfl
  · simp only [ask_ok, Bool.false_eq_true, ↓reduceIte, bind_assoc, pure_bind]
  · rfl

theorem memberFrom_climbs (acyclic : t.scanner.catalog.Acyclic) (shared : decl.isPrivate = false)
    (interfaces : Bool) (lasts : t.scanner.catalog.Lasts fuel id) :
    Climbs (t.onward interfaces member decl.declaring) (t.callsOn member decl.declaring)
      (t.moves member decl.declaring) (t.memberFrom interfaces member fuel id) [id] := by
  -- the fuel lasts for every path, and the type's own part ends the same at every level
  induction fuel generalizing id with
  | zero => exact absurd lasts.some (Nat.lt_irrefl 0)
  | succ fuel ih =>
    have ends (next : TypeId) (level : Nat) :
        ((t.memberFrom interfaces member fuel next).run level).answer = .ok () := by
      cases fuel with
      | zero => rfl
      | succ fuel => exact contain_answer _ _ level
    have further := t.onward_climbs interfaces ends fun next crosses =>
      ih (lasts.next acyclic crosses)
    obtain ⟨made, _⟩ := t.visit_calls member decl.declaring id
    rw [memberFrom_visits known, shared]
    refine .contain ?_ _
    cases ended : ((t.visit member decl.declaring id).run 0).answer with
    | error e =>
      have nowhere : t.onward interfaces member decl.declaring id = [] := by rw [onward, ended]
      have stays : t.moves member decl.declaring id = false := by rw [moves, ended]
      rw [ended] at made
      refine .visit (d := pure ()) (nowhere ▸ .ask (.ok ())) fun level => ?_
      rw [stays, made.bind_of_error _ level]
      exact ⟨rfl, (List.append_nil _).symm⟩
    | ok counted =>
      have answers (level : Nat) :
          ((t.visit member decl.declaring id).run level).answer = .ok counted := by
        rw [made level, ended]
      rcases counted with _ | called
      · have nowhere : t.onward interfaces member decl.declaring id = [] := by rw [onward, ended]
        have stays : t.moves member decl.declaring id = false := by rw [moves, ended]; rfl
        refine .visit (d := pure ()) (nowhere ▸ .ask (.ok ())) fun level => ?_
        rw [stays, run_bind_of_ok (answers level), made level]
        exact ⟨rfl, rfl⟩
      · have on : t.onward interfaces member decl.declaring id =
            t.scanner.catalog.followed interfaces id := by rw [onward, ended]
        have counts : t.moves member decl.declaring id = called := by rw [moves, ended]; rfl
        refine .visit (on ▸ further) fun level => ?_
        rw [counts, run_bind_of_ok (answers level), made level]
        cases called with
        | true => exact ⟨rfl, rfl⟩
        | false => exact ⟨rfl, rfl⟩

theorem memberFrom_levelsApart_of_private (own : decl.isPrivate = true) (interfaces : Bool)
    (fuel : Nat) (id : TypeId) :
    Event.LevelsApart ((t.memberFrom interfaces member fuel id).run 0).events := by
  cases fuel with
  | zero => exact Event.levelsApart_of_increasing .nil
  | succ fuel =>
    obtain ⟨made, _⟩ := t.visit_calls member decl.declaring id
    -- it leads nowhere, so one type is all that is walked
    have climbs : Climbs (fun _ => []) (t.callsOn member decl.declaring) (fun _ => false)
        (t.memberFrom interfaces member (fuel + 1) id) [id] := by
      rw [memberFrom_visits known, own]
      refine .contain (.visit (d := pure ()) (.ask (.ok ())) fun level => ?_) _
      cases ended : ((t.visit member decl.declaring id).run 0).answer with
      | error e =>
        rw [ended] at made
        rw [made.bind_of_error _ level]
        exact ⟨rfl, (List.append_nil _).symm⟩
      | ok counted =>
        rw [run_bind_of_ok (by rw [made level, ended]), made level]
        cases counted with
        | none => exact ⟨rfl, rfl⟩
        | some called => exact ⟨rfl, rfl⟩
    refine (climbs.levelsApart_iff fun _ none => by cases none).mpr fun stops route => ?_
    rw [route.unique (.visit .done)]
    exact List.pairwise_singleton _ _

end

theorem onward_of_no_types (none : t.scanner.catalog.typeCount ≤ 0) (interfaces : Bool)
    (member : MemberId) (declaring id : TypeId) : t.onward interfaces member declaring id = [] := by
  cases known : t.scanner.catalog.typeDecl id with
  | ok decl =>
    have issued := Catalog.index_lt_of_type? (Catalog.type?_of_typeDecl known)
    exact absurd (issued.trans_le none) (Nat.not_lt_zero _)
  | error e =>
    have plain : t.scanner.isPlainType id = .error e := by
      simp only [Scanner.isPlainType, Catalog.typeName, known]
      rfl
    rw [onward, visit, plain]
    rfl

theorem memberUpward_levelsApart_iff {fuel : Nat} (acyclic : t.scanner.catalog.Acyclic)
    (enough : t.scanner.catalog.typeCount ≤ fuel) (interfaces : Bool) (member : MemberId) :
    Event.LevelsApart ((t.memberUpward interfaces fuel member).run 0).events ↔
      t.Unbroken interfaces member := by
  unfold memberUpward Unbroken
  cases known : t.scanner.catalog.memberDecl member with
  | error e =>
    refine ⟨fun _ decl none => ?_, fun _ => Event.levelsApart_of_increasing .nil⟩
    cases none
  | ok decl =>
    simp only [Except.ok.injEq, forall_eq']
    cases own : decl.isPrivate with
    | true =>
      refine ⟨fun _ none => ?_, fun _ => ?_⟩
      · cases none
      · exact memberFrom_levelsApart_of_private known own interfaces fuel decl.declaring
    | false =>
      simp only [breaks_iff, and_imp, forall_const]
      cases fuel with
      | zero =>
        refine ⟨fun _ stops route => ?_, fun _ => Event.levelsApart_of_increasing .nil⟩
        have lone : Route (t.onward interfaces member decl.declaring) [decl.declaring]
            [decl.declaring] := by
          refine .from_onward ?_
          rw [onward_of_no_types enough]
          exact .done
        rw [route.unique lone]
        exact List.pairwise_singleton _ _
      | succ fuel =>
        have lasts : t.scanner.catalog.Lasts (fuel + 1) decl.declaring :=
          ⟨Nat.succ_pos fuel, Catalog.rank_le_typeCount.trans enough⟩
        exact (memberFrom_climbs known acyclic own interfaces lasts).levelsApart_iff
          fun _ => callsOn_of_moves

/-- Once a scan broke off among the calls for a type it makes no more calls. Only searches for the
    members that one overrides can break off so. -/
def Coherent (t : Terrain) (strategy : Strategy) : Element → Prop
  | .type _ | .parameter _ _ => True
  | .member id =>
    match strategy with
    | .direct | .inherited => True
    | .superclass => t.Unbroken false id
    | .hierarchy | .enclosing => t.Unbroken true id

theorem levelsApart_iff {fuel : Nat} (acyclic : t.scanner.catalog.Acyclic)
    (enough : t.scanner.catalog.typeCount ≤ fuel) (strategy : Strategy) (source : Element) :
    Event.LevelsApart (t.events fuel strategy source) ↔ t.Coherent strategy source := by
  cases source with
  | type id => exact iff_of_true (typeWalk_levelsApart fuel id strategy) True.intro
  | parameter owner index => exact iff_of_true (element_levelsApart _) True.intro
  | member id =>
    cases strategy with
    | direct | inherited => exact iff_of_true (memberAlone_levelsApart id) True.intro
    | superclass => exact memberUpward_levelsApart_iff acyclic enough false id
    | hierarchy | enclosing => exact memberUpward_levelsApart_iff acyclic enough true id

end Terrain

namespace Scan

/-- Two calls with an entry between them are at different levels, in the order in which they are
    made, just if a search for overridden members never breaks off after a call and makes another. -/
theorem levels_apart_iff {σ ο : Type} (s : Scan σ ο) (history : List Operation) (strategy : Strategy)
    (source : Element) (patient : s.visitor.Patient) (acyclic : s.scanner.catalog.Acyclic) :
    Event.LevelsApart (s.logAfter history strategy source) ↔ s.terrain.Coherent strategy source := by
  rw [s.logAfter_of_patient history strategy source patient]
  exact Terrain.levelsApart_iff acyclic s.typeCount_le_depth strategy source

def orphaned : Scan (List Level) (List Level) where
  scanner := ⟨.ofDecls [Catalog.rootDecl,
    ⟨⟨1⟩, "mark.Seen", .recordKind, [], none, [], none, false, true⟩,
    ⟨⟨2⟩, "ext.Missing", .classType, [], none, [], none, false, false⟩,
    ⟨⟨3⟩, "shape.First", .interface, [], none, [], none, false, true⟩,
    ⟨⟨4⟩, "shape.Second", .interface, [], none, [], none, false, true⟩,
    ⟨⟨5⟩, "shape.Low", .classType, [], some ⟨⟨0⟩, []⟩, [⟨⟨3⟩, []⟩, ⟨⟨4⟩, []⟩], none, false, true⟩]
    [⟨⟨0⟩, "save", ⟨2⟩, .everyone, [], .void, none, none⟩,
    ⟨⟨1⟩, "save", ⟨3⟩, .everyone, [], .void, none, some ⟨0⟩⟩,
    ⟨⟨2⟩, "save", ⟨4⟩, .everyone, [], .void, none, none⟩,
    ⟨⟨3⟩, "save", ⟨5⟩, .everyone, [], .void, none, none⟩]
    [(.member ⟨1⟩, .ofKind ⟨1⟩), (.member ⟨2⟩, .ofKind ⟨1⟩)], {}⟩
  visitor := .levels
  rejects _ := false

theorem orphaned_acyclic : orphaned.scanner.catalog.Acyclic := by
  have falls : orphaned.scanner.catalog.Falls TypeDecl.links TypeId.index := by decide
  exact falls.acyclic

theorem orphaned_levels_iff :
    orphaned.visitor.Patient ∧ orphaned.scanner.catalog.Acyclic ∧
      (Event.LevelsApart (orphaned.logAfter [.clear] .hierarchy (.member ⟨3⟩)) ↔
        orphaned.terrain.Coherent .hierarchy (.member ⟨3⟩)) := by
  have acyclic := orphaned_acyclic
  have patient : orphaned.visitor.Patient := Visitor.levels_patient
  exact ⟨patient, acyclic,
    levels_apart_iff orphaned [.clear] .hierarchy (.member ⟨3⟩) patient acyclic⟩

/-- The records of the two interfaces are shown at one level. -/
theorem orphaned_shares_level :
    orphaned.scanner.catalog.Acyclic ∧ orphaned.visitor.Patient ∧
      ¬Event.LevelsApart (orphaned.logAfter [] .hierarchy (.member ⟨3⟩)) := by
  refine ⟨orphaned_acyclic, Visitor.levels_patient, fun apart => ?_⟩
  rw [orphaned.logAfter_of_patient [] .hierarchy _ Visitor.levels_patient] at apart
  have log : orphaned.terrain.events orphaned.depth .hierarchy (.member ⟨3⟩) =
      [.enter 0, .records 0 (.member ⟨3⟩) [],
        .enter 1, .records 1 (.member ⟨1⟩) [some (.ofKind ⟨1⟩)],
        .failure (.member ⟨3⟩) (.typeNotPresent "ext.Missing"),
        .enter 1, .records 1 (.member ⟨2⟩) [some (.ofKind ⟨1⟩)]] := by cbv
  have shared : [.records 1 (.member ⟨1⟩) [some (.ofKind ⟨1⟩)], .enter 1,
      .records 1 (.member ⟨2⟩) [some (.ofKind ⟨1⟩)]].Sublist
        (orphaned.terrain.events orphaned.depth .hierarchy (.member ⟨3⟩)) := by
    rw [log]
    exact .cons _ (.cons _ (.cons _ (.cons_cons _ (.cons _ (.refl _)))))
  exact absurd (apart _ _ _ _ _ _ _ shared) (Nat.lt_irrefl 1)

end Scan

end Lineage
