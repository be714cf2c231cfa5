import Lineage.Catalog.Generics
import Lineage.Proofs.Catalog.Built
import Lineage.Proofs.Catalog.Links

namespace Lineage

abbrev Assignment := String → Option TypeArg

namespace Assignment

def itself (params : List TypeParam) : Assignment := fun name =>
  if params.any (·.name = name) then some (.var name) else none

def arg (σ : Assignment) : TypeArg → Option TypeArg
  | .concrete id => some (.concrete id)
  | .var name => σ name

theorem arg_concrete (σ : Assignment) (id : TypeId) :
    σ.arg (.concrete id) = some (.concrete id) := rfl

theorem arg_var (σ : Assignment) (name : String) : σ.arg (.var name) = σ name := rfl

/-- At the other end of a link, each parameter stands for what the argument in its place stands for.
    Of parameters with one name the first that stands for something counts. -/
def across (σ : Assignment) (params : List TypeParam) (args : List TypeArg) : Assignment :=
  fun name => (params.zip args).findSome? fun (param, arg) =>
    if param.name = name then σ.arg arg else none

end Assignment

theorem findNamed_cons (name other : String) (x : TypeArg) (rest : Bindings) :
    findNamed name ((other, x) :: rest) = if other = name then some x else findNamed name rest := by
  unfold findNamed
  rw [List.find?_cons]
  by_cases same : other = name
  · simp only [same, decide_true, Option.map_some, ↓reduceIte]
  · simp only [same, decide_false, ↓reduceIte]

theorem findNamed_through {b : Bindings} {σ : Assignment} (stands : ∀ name, findNamed name b = σ name)
    (params : List TypeParam) (args : List TypeArg) (name : String) :
    findNamed name (b.through params args) = σ.across params args name := by
  unfold Bindings.through Assignment.across
  generalize params.zip args = given
  induction given with
  | nil => rfl
  | cons entry rest ih =>
    obtain ⟨param, arg⟩ := entry
    rw [List.filterMap_cons, List.findSome?_cons]
    cases arg with
    | concrete id =>
      simp only [findNamed_cons, ih, Assignment.arg_concrete]
      by_cases same : param.name = name
      · simp only [same, ↓reduceIte]
      · simp only [same, ↓reduceIte]
    | var free =>
      simp only [Assignment.arg_var, ← stands free]
      cases findNamed free b with
      | none => simpa only [Option.map_none, ite_self] using ih
      | some x =>
        simp only [Option.map_some, findNamed_cons, ih]
        by_cases same : param.name = name
        · simp only [same, ↓reduceIte]
        · simp only [same, ↓reduceIte]

namespace Catalog

variable {c : Catalog} {id last declaring start : TypeId} {σ τ υ φ : Assignment} {turns : List Nat}
  {types seen : List TypeId}

/-- A path along superclasses and interfaces through known types, and what variables stand for at its
    two ends. It is told by the positions of its links, each among the supertypes of a type, where the
    superclass comes before the interfaces; the types on it are listed, both ends included. -/
inductive Route (c : Catalog) :
    TypeId → Assignment → List Nat → List TypeId → TypeId → Assignment → Prop
  | here {id : TypeId} {decl : TypeDecl} {σ : Assignment} : c.type? id = some decl →
    Route c id σ [] [id] id σ
  | link {id last : TypeId} {decl above : TypeDecl} {ref : SuperRef} {position : Nat}
    {turns : List Nat} {types : List TypeId} {σ τ : Assignment} : c.type? id = some decl →
    decl.supertypes[position]? = some ref → c.type? ref.target = some above →
    Route c ref.target (σ.across above.params ref.args) turns types last τ →
    Route c id σ (position :: turns) (id :: types) last τ

inductive Before : List Nat → List Nat → Prop
  | turn {i j : Nat} {rest further : List Nat} : i < j → Before (i :: rest) (j :: further)
  | shared {i : Nat} {way other : List Nat} : Before way other → Before (i :: way) (i :: other)

def NoLater (way other : List Nat) : Prop := way = other ∨ Before way other

/-- The first of the paths that meet no type twice, where paths are in the order of a walk that goes
    as deep as it can before it turns to the next supertype. -/
structure FirstRoute (c : Catalog) (start : TypeId) (σ : Assignment) (turns : List Nat)
    (types : List TypeId) (last : TypeId) (τ : Assignment) : Prop where
  route : c.Route start σ turns types last τ
  once : types.Nodup
  first : ∀ other passed υ, c.Route start σ other passed last υ → passed.Nodup → NoLater turns other

theorem Before.append {way other : List Nat} (before : Before way other) (rest further : List Nat) :
    Before (way ++ rest) (other ++ further) := by
  induction before with
  | turn lower => exact .turn lower
  | shared _ ih => exact .shared ih

theorem Before.trans {way other last : List Nat} (first : Before way other)
    (second : Before other last) : Before way last := by
  induction first generalizing last with
  | turn lower =>
    cases second with
    | turn more => exact .turn (lower.trans more)
    | shared _ => exact .turn lower
  | shared _ ih =>
    cases second with
    | turn more => exact .turn more
    | shared next => exact .shared (ih next)

theorem Before.irrefl {way : List Nat} : ¬Before way way := by
  intro before
  induction way with
  | nil => cases before
  | cons i rest ih =>
    cases before with
    | turn lower => exact lower.false
    | shared next => exact ih next

theorem before_of_lt (way : List Nat) {i j : Nat} (lower : i < j) :
    Before (way ++ [i]) (way ++ [j]) := by
  induction way with
  | nil => exact .turn lower
  | cons _ _ ih => exact .shared ih

theorem NoLater.trans {way other last : List Nat} (first : NoLater way other)
    (second : NoLater other last) : NoLater way last := by
  rcases first with rfl | first
  · exact second
  · rcases second with rfl | second
    · exact .inr first
    · exact .inr (first.trans second)

theorem NoLater.antisymm {way other : List Nat} (first : NoLater way other)
    (second : NoLater other way) : way = other := by
  rcases first with same | first
  · exact same
  · rcases second with same | second
    · exact same.symm
    · exact absurd (first.trans second) Before.irrefl

theorem Route.mem_last (route : c.Route id σ turns types last τ) : last ∈ types := by
  induction route with
  | here _ => exact List.mem_cons_self
  | link _ _ _ _ ih => exact List.mem_cons_of_mem _ ih

theorem Route.mem_first (route : c.Route id σ turns types last τ) : id ∈ types := by
  cases route with
  | here _ => exact List.mem_cons_self
  | link _ _ _ _ => exact List.mem_cons_self

/-- A path that meets no type twice does not go on where it has arrived. -/
theorem Route.arrived (route : c.Route id σ turns types id τ) (once : types.Nodup) : turns = [] := by
  cases route with
  | here _ => rfl
  | link _ _ _ onward => exact absurd onward.mem_last (List.nodup_cons.mp once).1

theorem Route.of_known {decl : TypeDecl} (route : c.Route id σ turns types last τ)
    (found : c.type? id = some decl) (υ : Assignment) : ∃ φ, c.Route id υ turns types last φ := by
  induction route generalizing υ decl with
  | here _ => exact ⟨υ, .here found⟩
  | link known link above _ ih =>
    obtain ⟨φ, onward⟩ := ih above _
    exact ⟨φ, .link known link above onward⟩

theorem Route.known (route : c.Route id σ turns types last τ) : ∃ decl, c.type? id = some decl := by
  cases route with
  | here found => exact ⟨_, found⟩
  | link found _ _ _ => exact ⟨_, found⟩

theorem Route.extend {decl above : TypeDecl} {ref : SuperRef} {position : Nat}
    (route : c.Route id σ turns types last τ) (found : c.type? last = some decl)
    (link : decl.supertypes[position]? = some ref) (known : c.type? ref.target = some above) :
    c.Route id σ (turns ++ [position]) (types ++ [ref.target]) ref.target
      (τ.across above.params ref.args) := by
  induction route with
  | here _ => exact .link found link known (.here known)
  | link first turn there _ ih => exact .link first turn there (ih found)

/-- What of a path lies beyond a type that it meets. -/
theorem Route.beyond (route : c.Route id σ turns types last τ) {t : TypeId} (met : t ∈ types) :
    ∃ before rest passed onward, turns = before ++ rest ∧ types = passed ++ onward ∧
      ∀ υ, ∃ φ, c.Route t υ rest onward last φ := by
  induction route with
  | here found =>
    rw [List.mem_singleton.mp met]
    exact ⟨[], [], [], _, rfl, rfl, fun υ => ⟨υ, .here found⟩⟩
  | @link id last decl above ref position turns types σ τ found link known onward ih =>
    rcases List.mem_cons.mp met with rfl | met
    · refine ⟨[], position :: turns, [], t :: types, rfl, rfl, fun υ => ?_⟩
      have whole : c.Route t σ _ _ last τ := .link found link known onward
      exact whole.of_known found υ
    · obtain ⟨before, rest, passed, further, sameTurns, sameTypes, reached⟩ := ih met
      refine ⟨position :: before, rest, id :: passed, further, ?_, ?_, reached⟩
      · rw [sameTurns, List.cons_append]
      · rw [sameTypes, List.cons_append]

/-- Leaving out the detours, a path becomes one that meets no type twice. -/
theorem Route.direct (route : c.Route id σ turns types last τ) :
    ∃ fewer passed υ, c.Route id σ fewer passed last υ ∧ passed.Nodup := by
  induction route with
  | here found => exact ⟨[], _, _, .here found, List.nodup_singleton _⟩
  | @link id last decl above ref position turns types σ τ found link known _ ih =>
    obtain ⟨fewer, passed, υ, onward, once⟩ := ih
    by_cases again : id ∈ passed
    · obtain ⟨_, rest, _, further, _, split, reached⟩ := onward.beyond again
      obtain ⟨φ, shorter⟩ := reached σ
      rw [split] at once
      exact ⟨rest, further, φ, shorter, (List.nodup_append.mp once).2.1⟩
    · exact ⟨position :: fewer, id :: passed, υ, .link found link known onward,
        List.nodup_cons.mpr ⟨again, once⟩⟩

abbrev Waiting := List Nat × TypeId × Bindings

def Arrival (c : Catalog) (start : TypeId) (σ : Assignment) (seen : List TypeId)
    (entry : Waiting) : Prop :=
  ∃ passed τ, c.Route start σ entry.1 (passed ++ [entry.2.1]) entry.2.1 τ ∧ passed.Nodup ∧
    passed ⊆ seen ∧ ∀ name, findNamed name entry.2.2 = τ name

/-- What waits is in the order of the ways, and the type that is looked for is not seen yet. -/
structure Frontier (c : Catalog) (start : TypeId) (σ : Assignment) (declaring : TypeId)
    (seen : List TypeId) (todo : List Waiting) : Prop where
  arrival : ∀ entry ∈ todo, c.Arrival start σ seen entry
  order : todo.Pairwise fun entry later => Before entry.1 later.1
  unmet : declaring ∉ seen

/-- A way that a search can still take: through something that waits, then past types not seen. -/
def Open (c : Catalog) (declaring : TypeId) (seen : List TypeId) (todo : List Waiting)
    (way : List Nat) : Prop :=
  ∃ entry ∈ todo, ∃ υ rest types φ, way = entry.1 ++ rest ∧
    c.Route entry.2.1 υ rest types declaring φ ∧ types.Nodup ∧ List.Disjoint types seen

def ahead (c : Catalog) (way : List Nat) (decl : TypeDecl) (b : Bindings) : List Waiting :=
  decl.supertypes.zipIdx.filterMap fun (ref, position) =>
    (c.type? ref.target).map fun above =>
      (way ++ [position], ref.target, b.through above.params ref.args)

section

variable {way : List Nat} {b : Bindings} {decl : TypeDecl} {todo : List Waiting} {entry : Waiting}
  {var : String}

theorem mem_ahead : entry ∈ c.ahead way decl b ↔
    ∃ position ref above, decl.supertypes[position]? = some ref ∧ c.type? ref.target = some above ∧
      entry = (way ++ [position], ref.target, b.through above.params ref.args) := by
  unfold ahead
  rw [List.mem_filterMap]
  constructor
  · rintro ⟨⟨ref, position⟩, listed, made⟩
    obtain ⟨above, known, rfl⟩ := Option.map_eq_some_iff.mp made
    exact ⟨position, ref, above, List.mk_mem_zipIdx_iff_getElem?.mp listed, known, rfl⟩
  · rintro ⟨position, ref, above, listed, known, rfl⟩
    refine ⟨(ref, position), List.mk_mem_zipIdx_iff_getElem?.mpr listed, ?_⟩
    exact Option.map_eq_some_iff.mpr ⟨above, known, rfl⟩

theorem ahead_order : (c.ahead way decl b).Pairwise fun entry later => Before entry.1 later.1 := by
  have rising : decl.supertypes.zipIdx.Pairwise fun x y => x.2 < y.2 := by
    rw [← List.pairwise_map, List.zipIdx_map_snd]
    exact List.pairwise_lt_range' 1
  apply List.pairwise_filterMap.mpr
  refine rising.imp fun {x y} lower entry made later madeToo => ?_
  obtain ⟨_, _, rfl⟩ := Option.map_eq_some_iff.mp made
  obtain ⟨_, _, rfl⟩ := Option.map_eq_some_iff.mp madeToo
  exact before_of_lt way lower

theorem Arrival.later (arrival : c.Arrival start σ seen entry) :
    c.Arrival start σ (id :: seen) entry := by
  obtain ⟨passed, τ, route, once, known, stands⟩ := arrival
  exact ⟨passed, τ, route, once, List.subset_cons_of_subset id known, stands⟩

theorem Arrival.ahead (arrival : c.Arrival start σ seen (way, id, b)) (new : id ∉ seen)
    (found : c.type? id = some decl) (next : entry ∈ c.ahead way decl b) :
    c.Arrival start σ (id :: seen) entry := by
  obtain ⟨position, ref, above, link, known, rfl⟩ := mem_ahead.mp next
  obtain ⟨passed, τ, route, once, visited, stands⟩ := arrival
  have further := route.extend found link known
  refine ⟨passed ++ [id], _, further, ?_, ?_, findNamed_through stands _ _⟩
  · exact List.Nodup.append once (List.nodup_singleton id)
      (List.disjoint_singleton.mpr fun met => new (visited met))
  · intro t met
    rcases List.mem_append.mp met with met | met
    · exact List.mem_cons_of_mem _ (visited met)
    · exact List.mem_cons.mpr (.inl (List.mem_singleton.mp met))

theorem Frontier.skip (frontier : c.Frontier start σ declaring seen (entry :: todo)) :
    c.Frontier start σ declaring seen todo :=
  ⟨fun other waits => frontier.arrival other (List.mem_cons_of_mem _ waits),
    (List.pairwise_cons.mp frontier.order).2, frontier.unmet⟩

theorem Frontier.enter (frontier : c.Frontier start σ declaring seen ((way, id, b) :: todo))
    (other : id ≠ declaring) (new : id ∉ seen) (found : c.type? id = some decl) :
    c.Frontier start σ declaring (id :: seen) (c.ahead way decl b ++ todo) := by
  have arrived := frontier.arrival _ List.mem_cons_self
  obtain ⟨first, order⟩ := List.pairwise_cons.mp frontier.order
  constructor
  · intro entry waits
    rcases List.mem_append.mp waits with next | waits
    · exact arrived.ahead new found next
    · exact (frontier.arrival entry (List.mem_cons_of_mem _ waits)).later
  · refine List.pairwise_append.mpr ⟨ahead_order, order, fun entry next later waits => ?_⟩
    obtain ⟨position, ref, above, _, _, rfl⟩ := mem_ahead.mp next
    have before := (first later waits).append [position] []
    rw [List.append_nil] at before
    exact before
  · intro met
    rcases List.mem_cons.mp met with rfl | met
    · exact other rfl
    · exact frontier.unmet met

/-- A type that is seen or not known opens no way. -/
theorem Open.skip (pending : c.Open declaring seen (entry :: todo) way)
    (dead : entry.2.1 ∈ seen ∨ c.type? entry.2.1 = none) : c.Open declaring seen todo way := by
  obtain ⟨within, waits, υ, rest, types, φ, same, route, once, apart⟩ := pending
  rcases List.mem_cons.mp waits with rfl | waits
  · rcases dead with met | unknown
    · exact absurd met (apart route.mem_first)
    · obtain ⟨decl, found⟩ := route.known
      rw [unknown] at found
      cases found
  · exact ⟨within, waits, υ, rest, types, φ, same, route, once, apart⟩

/-- From a type on, a way goes on through one of its supertypes. -/
theorem Open.through {rest : List Nat} (route : c.Route id υ rest types declaring φ)
    (once : types.Nodup) (apart : List.Disjoint types seen) (other : id ≠ declaring)
    (found : c.type? id = some decl) (b : Bindings) (todo : List Waiting) :
    c.Open declaring (id :: seen) (c.ahead way decl b ++ todo) (way ++ rest) := by
  cases route with
  | here _ => exact absurd rfl other
  | @link _ _ _ above ref position onward types _ _ known link there route =>
    rw [found] at known
    cases known
    obtain ⟨away, once⟩ := List.nodup_cons.mp once
    have next : (way ++ [position], ref.target, b.through above.params ref.args) ∈
        c.ahead way decl b := mem_ahead.mpr ⟨position, ref, above, link, there, rfl⟩
    refine ⟨_, List.mem_append_left _ next, _, onward, types, _, ?_, route, once, ?_⟩
    · rw [List.append_assoc, List.singleton_append]
    · exact List.disjoint_cons_right.mpr ⟨away, List.disjoint_of_disjoint_cons_left apart⟩

/-- When a type is entered, a way that passed it later on can be cut short. -/
theorem Open.enter {taken : List Nat} (pending : c.Open declaring seen ((way, id, b) :: todo) taken)
    (frontier : c.Frontier start σ declaring seen ((way, id, b) :: todo))
    (other : id ≠ declaring) (found : c.type? id = some decl) :
    ∃ sooner, c.Open declaring (id :: seen) (c.ahead way decl b ++ todo) sooner ∧
      NoLater sooner taken := by
  obtain ⟨within, waits, υ, rest, types, φ, rfl, route, once, apart⟩ := pending
  rcases List.mem_cons.mp waits with rfl | waits
  · exact ⟨_, .through route once apart other found b todo, .inl rfl⟩
  · -- The type is seen from now on, which closes a later way through it. What the way does beyond
    -- the type can be done at once.
    have before := (List.pairwise_cons.mp frontier.order).1 within waits
    by_cases met : id ∈ types
    · obtain ⟨_, shorter, _, further, _, rfl, reached⟩ := route.beyond met
      obtain ⟨φ, cut⟩ := reached υ
      have once := (List.nodup_append.mp once).2.1
      have apart := List.disjoint_of_disjoint_append_left_right apart
      exact ⟨_, .through cut once apart other found b todo, .inr (before.append _ _)⟩
    · refine ⟨_, ⟨within, List.mem_append_right _ waits, υ, rest, types, φ, rfl, route, once, ?_⟩,
        .inl rfl⟩
      exact List.disjoint_cons_right.mpr ⟨met, apart⟩

/-- An answer is what the variable stands for along a path that comes before every way that was
    open. No answer means that there was no way. -/
def Settles (c : Catalog) (start : TypeId) (σ : Assignment) (declaring : TypeId) (var : String)
    (available : List Nat → Prop) : Option TypeArg → Prop
  | none => ∀ way, ¬available way
  | some answer => ∃ turns types τ, c.Route start σ turns types declaring τ ∧ types.Nodup ∧
      answer = (τ var).getD (.concrete (c.erasure declaring var)) ∧
      ∀ way, available way → NoLater turns way

end

theorem Route.determined {passed : List TypeId} (route : c.Route id σ turns types last τ)
    (other : c.Route id σ turns passed last υ) : τ = υ := by
  induction route generalizing passed with
  | here _ =>
    cases other
    rfl
  | link found link above _ ih =>
    cases other with
    | link foundToo linkToo aboveToo onward =>
      rw [found] at foundToo
      cases foundToo
      rw [link] at linkToo
      cases linkToo
      rw [above] at aboveToo
      cases aboveToo
      exact ih onward

/-- There is but one first path. -/
theorem FirstRoute.determined {other : List Nat} {passed : List TypeId}
    (first : c.FirstRoute id σ turns types last τ) (too : c.FirstRoute id σ other passed last υ) :
    τ = υ := by
  have same : turns = other :=
    (first.first other passed υ too.route too.once).antisymm
      (too.first turns types τ first.route first.once)
  subst same
  exact first.route.determined too.route

section

variable {id : MemberId} {against : TypeId} {member : MemberDecl} {start : TypeDecl} {index : Nat}
  {var : String}

end

end Catalog

end Lineage
