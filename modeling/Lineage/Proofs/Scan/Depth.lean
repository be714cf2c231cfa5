import Lineage.Proofs.Catalog.Links
import Lineage.Proofs.Scan.Course

namespace Lineage

namespace Catalog

variable {c d : Catalog} {id above : TypeId} {fuel : Nat}

section

variable (same : c.types = d.types)
include same

theorem superclass_of_types (id : TypeId) : c.superclass id = d.superclass id := by
  cases c
  cases same
  rfl

theorem interfaces_of_types (id : TypeId) : c.interfaces id = d.interfaces id := by
  cases c
  cases same
  rfl

theorem enclosing_of_types (id : TypeId) : c.enclosing id = d.enclosing id := by
  cases c
  cases same
  rfl

end

def Crosses (c : Catalog) (a b : TypeId) : Prop :=
  c.Leads TypeDecl.links a b ∧ c.isPresent b = true

theorem crosses_of_superclass (known : c.superclass id = .ok (some above)) : c.Crosses id above := by
  obtain ⟨decl, loaded, known⟩ := bind_ok known
  have found := (present_of_load loaded).1
  cases given : decl.superclass with
  | none =>
    simp only [given] at known
    cases known
  | some ref =>
    simp only [given] at known
    obtain ⟨target, there, same⟩ := map_ok known
    cases same
    obtain ⟨rfl, present⟩ := present_of_loadTarget there
    refine ⟨⟨decl, found, ?_⟩, present⟩
    simp [TypeDecl.links, TypeDecl.superLinks, given]

theorem crosses_of_interfaces {ids : List TypeId} (known : c.interfaces id = .ok ids)
    (member : above ∈ ids) : c.Crosses id above := by
  obtain ⟨decl, loaded, known⟩ := bind_ok known
  have found := (present_of_load loaded).1
  obtain ⟨ref, listed, there⟩ := (mapM_ok known).2 above member
  obtain ⟨rfl, present⟩ := present_of_loadTarget there
  refine ⟨⟨decl, found, ?_⟩, present⟩
  have listed := List.mem_map_of_mem (f := (·.target)) listed
  simp only [TypeDecl.links, List.mem_append, listed, true_or]

theorem crosses_of_enclosing (known : c.enclosing id = .ok (some above)) : c.Crosses id above := by
  obtain ⟨decl, loaded, known⟩ := bind_ok known
  have found := (present_of_load loaded).1
  cases given : decl.enclosing with
  | none =>
    simp only [given] at known
    cases known
  | some outer =>
    simp only [given] at known
    obtain ⟨target, there, same⟩ := map_ok known
    cases same
    obtain ⟨rfl, present⟩ := present_of_loadTarget there
    refine ⟨⟨decl, found, ?_⟩, present⟩
    simp [TypeDecl.links, given]

structure Lasts (c : Catalog) (fuel : Nat) (id : TypeId) : Prop where
  some : 0 < fuel
  rank : c.rank TypeDecl.links id ≤ fuel

theorem Lasts.next (acyclic : c.Acyclic) (lasts : c.Lasts (fuel + 1) id)
    (crosses : c.Crosses id above) : c.Lasts fuel above := by
  obtain ⟨leads, present⟩ := crosses
  obtain ⟨decl, found, _⟩ := load_of_present present
  have issued : 0 < c.rank TypeDecl.links above := rank_pos found
  have lower := rank_lt (acyclic id) leads
  have := lasts.rank
  exact ⟨by omega, by omega⟩

theorem lasts_of_typeCount (some : 0 < c.typeCount) (enough : c.typeCount ≤ fuel) (id : TypeId) :
    c.Lasts fuel id :=
  ⟨some.trans_le enough, rank_le_typeCount.trans enough⟩

/-- Where links form no cycle, a chain of superclasses that is followed to its end is the same with
    more fuel. -/
theorem ancestorsWithin_settled {more : Nat} (acyclic : c.Acyclic) (lasts : c.Lasts fuel id)
    (lastsMore : c.Lasts more id) : c.ancestorsWithin fuel id = c.ancestorsWithin more id := by
  induction fuel generalizing more id with
  | zero => exact absurd lasts.some (Nat.lt_irrefl 0)
  | succ fuel ih =>
    cases more with
    | zero => exact absurd lastsMore.some (Nat.lt_irrefl 0)
    | succ more =>
      unfold ancestorsWithin
      cases known : c.superclass id with
      | error e => rfl
      | ok above =>
        cases above with
        | none => rfl
        | some next =>
          have crosses := crosses_of_superclass known
          have same := ih (lasts.next acyclic crosses) (lastsMore.next acyclic crosses)
          exact congrArg (Functor.map (next :: ·)) same

end Catalog

namespace Course

variable {R : Course Unit → Course Unit → Prop} {walk other : TypeId → Course Unit}

/-- A relation of courses that is kept wherever both ask the same and go on to related ones. -/
structure Conforms (R : Course Unit → Course Unit → Prop) : Prop where
  nothing : R (pure ()) (pure ())
  unasked : ∀ e, R (ask (.error e)) (ask (.error e))
  report : ∀ on e, R (report on e) (report on e)
  append : ∀ {c d after later : Course Unit},
    R c d → R after later → R (c >>= fun _ => after) (d >>= fun _ => later)

theorem Conforms.eq : Conforms Eq where
  nothing := rfl
  unasked _ := rfl
  report _ _ := rfl
  append := by
    rintro _ _ _ _ rfl rfl
    rfl

theorem Conforms.forM (conforms : Conforms R) {ids : List TypeId}
    (each : ∀ id ∈ ids, R (walk id) (other id)) : R (ids.forM walk) (ids.forM other) := by
  induction ids with
  | nil => exact conforms.nothing
  | cons id rest ih =>
    exact conforms.append (each id List.mem_cons_self)
      (ih fun further member => each further (List.mem_cons_of_mem _ member))

section

variable {t u : Terrain} {id : TypeId} (conforms : Conforms R)
  (same : u.scanner.catalog.types = t.scanner.catalog.types)
  (each : ∀ next, t.scanner.catalog.Crosses id next → R (walk next) (other next))
include conforms same each

theorem Conforms.sideways (interfaces : Bool) :
    R (t.sideways interfaces walk id) (u.sideways interfaces other id) := by
  unfold Terrain.sideways
  rw [Catalog.interfaces_of_types same]
  cases interfaces with
  | false => exact conforms.nothing
  | true =>
    cases known : t.scanner.catalog.interfaces id with
    | error e => exact conforms.unasked e
    | ok ids =>
      exact conforms.forM fun next member => each next (Catalog.crosses_of_interfaces known member)

omit each in
theorem Conforms.upward
    (above : ∀ next, t.scanner.catalog.superclass id = .ok (some next) → R (walk next) (other next)) :
    R (t.upward walk id) (u.upward other id) := by
  unfold Terrain.upward Terrain.properSuperclass
  rw [Catalog.superclass_of_types same]
  cases known : t.scanner.catalog.superclass id with
  | error e => exact conforms.unasked e
  | ok extended =>
    simp only [ask_ok, pure_bind]
    cases proper : extended.filter (· != Catalog.root) with
    | none => exact conforms.nothing
    | some next =>
      obtain ⟨rfl, _⟩ := Option.filter_eq_some_iff.mp proper
      exact above next known

theorem Conforms.outward (enclosing : Bool) :
    R (t.outward enclosing walk id) (u.outward enclosing other id) := by
  unfold Terrain.outward
  rw [Catalog.enclosing_of_types same]
  split
  · cases known : t.scanner.catalog.enclosing id with
    | error e => exact conforms.report _ e
    | ok outer =>
      cases outer with
      | none => exact conforms.nothing
      | some next => exact each next (Catalog.crosses_of_enclosing known)
  · exact conforms.nothing

theorem Conforms.onward (reach : Scan.Reach) :
    R (do
        t.sideways reach.interfaces walk id
        t.upward walk id
        t.outward reach.enclosing walk id)
      (do
        u.sideways reach.interfaces other id
        u.upward other id
        u.outward reach.enclosing other id) := by
  have upward := conforms.upward same fun next known => each next (Catalog.crosses_of_superclass known)
  exact conforms.append (conforms.sideways same each reach.interfaces)
    (conforms.append upward (conforms.outward same each reach.enclosing))

end

end Course

namespace Terrain

open Course

variable {t : Terrain} {id : TypeId} {fuel more : Nat}

section

variable (acyclic : t.scanner.catalog.Acyclic)
include acyclic

theorem typeFrom_settled (reach : Scan.Reach) (lasts : t.scanner.catalog.Lasts fuel id)
    (lastsMore : t.scanner.catalog.Lasts more id) :
    t.typeFrom reach fuel id = t.typeFrom reach more id := by
  induction fuel generalizing more id with
  | zero => exact absurd lasts.some (Nat.lt_irrefl 0)
  | succ fuel ih =>
    cases more with
    | zero => exact absurd lastsMore.some (Nat.lt_irrefl 0)
    | succ more =>
      have same (next : TypeId) (crosses : t.scanner.catalog.Crosses id next) :
          t.typeFrom reach fuel next = t.typeFrom reach more next :=
        ih (lasts.next acyclic crosses) (lastsMore.next acyclic crosses)
      unfold typeFrom
      rw [Conforms.eq.onward rfl same]

theorem memberFrom_settled (interfaces : Bool) (member : MemberId)
    (lasts : t.scanner.catalog.Lasts fuel id) (lastsMore : t.scanner.catalog.Lasts more id) :
    t.memberFrom interfaces member fuel id = t.memberFrom interfaces member more id := by
  induction fuel generalizing more id with
  | zero => exact absurd lasts.some (Nat.lt_irrefl 0)
  | succ fuel ih =>
    cases more with
    | zero => exact absurd lastsMore.some (Nat.lt_irrefl 0)
    | succ more =>
      have same (next : TypeId) (crosses : t.scanner.catalog.Crosses id next) :
          t.memberFrom interfaces member fuel next = t.memberFrom interfaces member more next :=
        ih (lasts.next acyclic crosses) (lastsMore.next acyclic crosses)
      have upward (next : TypeId) (known : t.scanner.catalog.superclass id = .ok (some next)) :=
        same next (Catalog.crosses_of_superclass known)
      unfold memberFrom
      rw [Conforms.eq.sideways rfl same, Conforms.eq.upward rfl upward]

theorem inheritedFrom_settled (source : TypeId) (index : Nat) (claims : Option Scan.Claims)
    (lasts : t.scanner.catalog.Lasts fuel id) (lastsMore : t.scanner.catalog.Lasts more id) :
    t.inheritedFrom source fuel id index claims = t.inheritedFrom source more id index claims := by
  induction fuel generalizing more id index claims with
  | zero => exact absurd lasts.some (Nat.lt_irrefl 0)
  | succ fuel ih =>
    cases more with
    | zero => exact absurd lastsMore.some (Nat.lt_irrefl 0)
    | succ more =>
      unfold inheritedFrom
      congr
      funext plain
      congr
      funext _
      congr
      funext left
      cases known : t.scanner.catalog.superclass id with
      | error e => rfl
      | ok above =>
        cases above with
        | none => rfl
        | some next =>
          have crosses := Catalog.crosses_of_superclass known
          exact ih (index + 1) left (lasts.next acyclic crosses) (lastsMore.next acyclic crosses)

/-- Where links form no cycle, a scan with enough fuel for every path is the same with any more. -/
theorem course_settled (enough : t.scanner.catalog.typeCount ≤ fuel)
    (enoughMore : t.scanner.catalog.typeCount ≤ more) (some : 0 < t.scanner.catalog.typeCount)
    (strategy : Strategy) (source : Element) :
    t.course fuel strategy source = t.course more strategy source := by
  have lasts := Catalog.lasts_of_typeCount some enough
  have lastsMore := Catalog.lasts_of_typeCount some enoughMore
  have types (reach : Scan.Reach) (id : TypeId) :
      t.typeFrom reach fuel id = t.typeFrom reach more id :=
    typeFrom_settled acyclic reach (lasts id) (lastsMore id)
  have members (interfaces : Bool) (id : MemberId) :
      t.memberUpward interfaces fuel id = t.memberUpward interfaces more id := by
    unfold memberUpward
    cases t.scanner.catalog.memberDecl id with
    | error e => rfl
    | ok decl => exact memberFrom_settled acyclic interfaces id (lasts _) (lastsMore _)
  cases source with
  | type id =>
    cases strategy with
    | direct => rfl
    | inherited =>
      show t.inheritedType fuel id = t.inheritedType more id
      unfold inheritedType
      rw [inheritedFrom_settled acyclic id 0 none (lasts id) (lastsMore id)]
    | superclass | hierarchy | enclosing => exact types _ id
  | member id =>
    cases strategy with
    | direct | inherited => rfl
    | superclass | hierarchy | enclosing => exact members _ id
  | parameter owner index => rfl

end

end Terrain

end Lineage
