import Lineage.Proofs.Catalog.Aligned
import Lineage.Proofs.Catalog.Links
import Lineage.Proofs.Lists

namespace Lineage.Catalog

open Relation

variable {c : Catalog} {id t : TypeId} {decl : TypeDecl} {seen todo : List TypeId} {fuel more : Nat}

def climb (c : Catalog) : Nat → TypeId → List TypeId
  | 0, _ => []
  | fuel + 1, id =>
    match c.type? id with
    | none => []
    | some decl => id :: decl.above.flatMap (c.climb fuel)

def lineage (c : Catalog) (id : TypeId) : List TypeId := (c.climb c.typeCount id).eraseDups

theorem climb_settled (grounded : c.Grounded TypeDecl.above id)
    (enough : c.rank TypeDecl.above id ≤ fuel) (enoughMore : c.rank TypeDecl.above id ≤ more) :
    c.climb fuel id = c.climb more id := by
  induction fuel generalizing more id with
  | zero =>
    have := grounded.rank_pos
    omega
  | succ fuel ih =>
    cases more with
    | zero =>
      have := grounded.rank_pos
      omega
    | succ more =>
      obtain ⟨decl, found, _, onward⟩ := grounded.step
      simp only [climb, found]
      congr 1
      refine List.flatMap_congr fun next member => ?_
      obtain ⟨further, lower⟩ := onward next member
      exact ih further (by omega) (by omega)

theorem climb_eq (grounded : c.Grounded TypeDecl.above id) (found : c.type? id = some decl) :
    c.climb c.typeCount id = id :: decl.above.flatMap (c.climb c.typeCount) := by
  have bound : c.rank TypeDecl.above id ≤ c.typeCount := rank_le_typeCount
  have positive := grounded.rank_pos
  obtain ⟨n, size⟩ : ∃ n, c.typeCount = n + 1 := ⟨c.typeCount - 1, by omega⟩
  rw [size]
  simp only [climb, found]
  congr 1
  refine List.flatMap_congr fun next member => ?_
  have leads : c.Leads TypeDecl.above id next := ⟨decl, found, member⟩
  have lower := grounded.rank_lt leads
  have settled : c.climb n next = c.climb (n + 1) next :=
    climb_settled (grounded.next leads) (by omega) (by omega)
  rw [settled]
  simp only [climb]

theorem reaches_of_mem_climb (member : t ∈ c.climb fuel id) : c.Reaches TypeDecl.above id t := by
  induction fuel generalizing id with
  | zero => cases member
  | succ fuel ih =>
    unfold climb at member
    split at member
    · cases member
    · rename_i decl found
      rcases List.mem_cons.mp member with rfl | member
      · exact .refl
      · obtain ⟨next, listed, member⟩ := List.mem_flatMap.mp member
        exact (ih member).head ⟨decl, found, listed⟩

theorem mem_climb_of_reaches (reached : c.Reaches TypeDecl.above id t)
    (grounded : c.Grounded TypeDecl.above id) : t ∈ c.climb c.typeCount id := by
  induction reached using ReflTransGen.head_induction_on with
  | refl =>
    obtain ⟨decl, found, _⟩ := load_of_present grounded.here
    rw [climb_eq grounded found]
    exact List.mem_cons_self
  | head leads _ ih =>
    obtain ⟨decl, found, listed⟩ := leads
    rw [climb_eq grounded found]
    refine List.mem_cons_of_mem _ (List.mem_flatMap.mpr ⟨_, listed, ih ?_⟩)
    exact grounded.next ⟨decl, found, listed⟩

theorem mem_lineage (grounded : c.Grounded TypeDecl.above id) :
    t ∈ c.lineage id ↔ c.Reaches TypeDecl.above id t := by
  rw [lineage, List.mem_eraseDups]
  exact ⟨reaches_of_mem_climb, fun reached => mem_climb_of_reaches reached grounded⟩

theorem lineage_nodup : (c.lineage id).Nodup := nodup_eraseDups _

def Explored (c : Catalog) (seen todo : List TypeId) : Prop :=
  ∀ before a after, todo = before ++ a :: after → ∀ b, c.Reaches TypeDecl.above a b → b ∈ seen →
    ∀ next, c.Leads TypeDecl.above b next → next ∈ seen ∨ next ∈ before

theorem explored_nothing (todo : List TypeId) : c.Explored [] todo := by
  intro before a after _ b _ known
  cases known

theorem Explored.seen_of_reaches (explored : c.Explored seen (id :: todo)) (known : id ∈ seen)
    (reached : c.Reaches TypeDecl.above id t) : t ∈ seen := by
  induction reached with
  | refl => exact known
  | tail path leads ih =>
    rcases explored [] id todo rfl _ path ih _ leads with seen | waiting
    · exact seen
    · cases waiting

theorem Explored.skip (explored : c.Explored seen (id :: todo)) (known : id ∈ seen) :
    c.Explored seen todo := by
  intro before a after split b reached bSeen next leads
  rcases explored (id :: before) a after (by rw [split, List.cons_append]) b reached bSeen next leads
    with seen | waiting
  · exact .inl seen
  · rcases List.mem_cons.mp waiting with rfl | waiting
    · exact .inl known
    · exact .inr waiting

theorem Explored.enter (explored : c.Explored seen (id :: todo)) (found : c.type? id = some decl)
    (noCycle : ¬TransGen (c.Leads TypeDecl.above) id id) :
    c.Explored (id :: seen) (decl.above ++ todo) := by
  intro before a after split b reached bSeen next leads
  have own (nextAbove : c.Leads TypeDecl.above id next) : next ∈ decl.above := by
    obtain ⟨same, foundToo, listed⟩ := nextAbove
    rw [found] at foundToo
    cases foundToo
    exact listed
  -- either `a` is above the type, or it waited before
  have place : a ∈ decl.above ∨ ∃ passed, before = decl.above ++ passed ∧
      todo = passed ++ a :: after := by
    rcases List.append_eq_append_iff.mp split with ⟨passed, before, rest⟩ | ⟨passed, own, rest⟩
    · exact .inr ⟨passed, before, rest⟩
    · cases passed with
      | nil => exact .inr ⟨[], by simpa using own.symm, rest.symm⟩
      | cons first passed =>
        rw [List.cons_append] at rest
        injection rest with same _
        exact .inl (by rw [own, same]; simp)
  rcases place with above | ⟨passed, rfl, rest⟩
  · have leadsHere : c.Leads TypeDecl.above id a := ⟨decl, found, above⟩
    rcases List.mem_cons.mp bSeen with rfl | bSeen
    · exact absurd (TransGen.head' leadsHere reached) noCycle
    · rcases explored [] id todo rfl b (reached.head leadsHere) bSeen next leads with seen | waiting
      · exact .inl (List.mem_cons_of_mem _ seen)
      · cases waiting
  · rcases List.mem_cons.mp bSeen with rfl | bSeen
    · exact .inr (List.mem_append_left _ (own leads))
    · rcases explored (id :: passed) a after (by rw [rest, List.cons_append]) b reached bSeen next
        leads with seen | waiting
      · exact .inl (List.mem_cons_of_mem _ seen)
      · rcases List.mem_cons.mp waiting with rfl | waiting
        · exact .inl List.mem_cons_self
        · exact .inr (List.mem_append_right _ waiting)

theorem reachFrom_loaded (new : id ∉ seen) (loaded : c.load id = .ok decl) :
    c.reachFrom seen (id :: todo) = (id :: ·) <$> c.reachFrom (id :: seen) (decl.above ++ todo) := by
  rw [reachFrom_new new, loaded]
  rfl

/-- The search gives the types it has not seen, each where the climb meets it first. -/
theorem reachFrom_eq (grounded : ∀ a ∈ todo, c.Grounded TypeDecl.above a)
    (explored : c.Explored seen todo) :
    c.reachFrom seen todo =
      .ok ((todo.flatMap (c.climb c.typeCount)).filter (· ∉ seen)).eraseDups := by
  induction seen, todo using reachFrom.induct c with
  | case1 seen =>
    rw [reachFrom]
    rfl
  | case2 seen id todo known ih =>
    rw [reachFrom_seen known, ih (fun a member => grounded a (List.mem_cons_of_mem _ member))
      (explored.skip known), List.flatMap_cons, List.filter_append]
    have nothing : (c.climb c.typeCount id).filter (· ∉ seen) = [] := by
      rw [List.filter_eq_nil_iff]
      intro t member unseen
      exact of_decide_eq_true unseen (explored.seen_of_reaches known (reaches_of_mem_climb member))
    rw [nothing, List.nil_append]
  | case3 seen id todo new e failed =>
    obtain ⟨decl, _, loaded⟩ := load_of_present (grounded id List.mem_cons_self).here
    rw [loaded] at failed
    cases failed
  | case4 seen id todo new decl loaded lower ih =>
    have here := grounded id List.mem_cons_self
    have found := (present_of_load loaded).1
    have all : ∀ a ∈ decl.above ++ todo, c.Grounded TypeDecl.above a := by
      intro a member
      rcases List.mem_append.mp member with above | waiting
      · exact here.next ⟨decl, found, above⟩
      · exact grounded a (List.mem_cons_of_mem _ waiting)
    have rest : c.reachFrom (id :: seen) (decl.above ++ todo) =
        .ok (((decl.above ++ todo).flatMap (c.climb c.typeCount)).filter
          (· ∉ id :: seen)).eraseDups :=
      ih all (explored.enter found (here.acyclic id .refl))
    rw [reachFrom_loaded new loaded, rest, List.flatMap_cons, climb_eq here found, List.cons_append,
      List.filter_cons, if_pos (decide_eq_true new), List.eraseDups_cons, List.filter_filter,
      List.flatMap_append]
    show Except.ok _ = Except.ok _
    congr 3
    refine List.filter_congr fun t _ => ?_
    rw [Bool.eq_iff_iff]
    simp [not_or]

theorem publicMembers_of_grounded (aligned : c.Aligned) (grounded : c.Grounded TypeDecl.above id) :
    c.publicMembers id = .ok ((c.lineage id).flatMap fun t =>
      ((c.membersOf t).filter (·.visibility = .everyone)).map (·.id)) := by
  have all : ([id].flatMap (c.climb c.typeCount)).filter (· ∉ ([] : List TypeId)) =
      c.climb c.typeCount id := by simp
  have reached : c.reachFrom [] [id] = .ok (c.lineage id) := by
    rw [reachFrom_eq (by simpa using grounded) (explored_nothing _), all, lineage]
  simp only [publicMembers, reached, Bind.bind, Except.bind, aligned.membersWhere]
  rfl

end Lineage.Catalog
