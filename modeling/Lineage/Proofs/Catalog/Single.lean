import Lineage.Proofs.Catalog.Reach

namespace Lineage.Catalog

open Relation

variable {c : Catalog} {links : TypeDecl → List TypeId} {id last further : TypeId}
  {turns more : List Nat}

inductive Path (c : Catalog) (links : TypeDecl → List TypeId) : TypeId → List Nat → TypeId → Prop
  | here {id : TypeId} : Path c links id [] id
  | turn {id next last : TypeId} {decl : TypeDecl} {position : Nat} {turns : List Nat} :
    c.type? id = some decl → (links decl)[position]? = some next → Path c links next turns last →
    Path c links id (position :: turns) last

def SinglePaths (c : Catalog) (links : TypeDecl → List TypeId) (id : TypeId) : Prop :=
  ∀ last turns other, c.Path links id turns last → c.Path links id other last → turns = other

theorem Path.reaches (path : c.Path links id turns last) : c.Reaches links id last := by
  induction path with
  | here => exact .refl
  | turn found link _ ih => exact ih.head ⟨_, found, List.mem_of_getElem? link⟩

theorem Path.append (path : c.Path links id turns last) (onward : c.Path links last more further) :
    c.Path links id (turns ++ more) further := by
  induction path with
  | here => exact onward
  | turn found link _ ih => exact .turn found link (ih onward)

theorem path_of_leads (leads : c.Leads links id last) (path : c.Path links last turns further) :
    ∃ position, c.Path links id (position :: turns) further := by
  obtain ⟨decl, found, listed⟩ := leads
  obtain ⟨position, link⟩ := List.mem_iff_getElem?.mp listed
  exact ⟨position, .turn found link path⟩

theorem path_of_reaches (reached : c.Reaches links id last) :
    ∃ turns, c.Path links id turns last := by
  induction reached using ReflTransGen.head_induction_on with
  | refl => exact ⟨[], .here⟩
  | head leads _ ih =>
    obtain ⟨turns, path⟩ := ih
    obtain ⟨position, path⟩ := path_of_leads leads path
    exact ⟨position :: turns, path⟩

/-- A cycle can be gone round once more, so what is on it has no single path. -/
theorem SinglePaths.acyclicFrom (single : c.SinglePaths links id) : c.AcyclicFrom links id := by
  intro a reached cycle
  obtain ⟨next, leads, back⟩ := TransGen.head'_iff.mp cycle
  obtain ⟨turns, path⟩ := path_of_reaches reached
  obtain ⟨rest, back⟩ := path_of_reaches back
  obtain ⟨position, round⟩ := path_of_leads leads back
  have same : turns = turns ++ position :: rest := single a _ _ path (path.append round)
  have length := congrArg List.length same
  rw [List.length_append, List.length_cons] at length
  omega

/-- The paths are single where the climb, which lists a type for each path, lists none twice. -/
theorem singlePaths_of_climb (grounded : c.Grounded TypeDecl.above id)
    (once : (c.climb c.typeCount id).Nodup) : c.SinglePaths TypeDecl.above id := by
  intro last turns other first second
  induction first generalizing other with
  | @here id =>
    cases second with
    | here => rfl
    | turn found link rest =>
      have cycle := TransGen.head' ⟨_, found, List.mem_of_getElem? link⟩ rest.reaches
      exact absurd cycle (grounded.acyclic id .refl)
  | @turn id next last decl position turns found link path ih =>
    rw [climb_eq grounded found, List.nodup_cons, List.nodup_flatMap] at once
    obtain ⟨_, each, apart⟩ := once
    cases second with
    | here =>
      have cycle := TransGen.head' ⟨_, found, List.mem_of_getElem? link⟩ path.reaches
      exact absurd cycle (grounded.acyclic id .refl)
    | @turn _ nextToo _ _ positionToo rest foundToo linkToo pathToo =>
      rw [found] at foundToo
      cases foundToo
      have onward (next : TypeId) (listed : next ∈ decl.above) :
          c.Grounded TypeDecl.above next := grounded.next ⟨decl, found, listed⟩
      have there := mem_climb_of_reaches path.reaches (onward next (List.mem_of_getElem? link))
      have thereToo :=
        mem_climb_of_reaches pathToo.reaches (onward nextToo (List.mem_of_getElem? linkToo))
      obtain ⟨bound, rfl⟩ := List.getElem?_eq_some_iff.mp link
      obtain ⟨boundToo, rfl⟩ := List.getElem?_eq_some_iff.mp linkToo
      -- two links that both lead to the end would have it in both of their climbs
      rcases Nat.lt_trichotomy position positionToo with before | rfl | after
      · exact absurd thereToo (List.pairwise_iff_getElem.mp apart _ _ bound boundToo before there)
      · have listed := List.getElem_mem bound
        rw [ih (onward _ listed) (each _ listed) rest pathToo]
      · exact absurd there (List.pairwise_iff_getElem.mp apart _ _ boundToo bound after thereToo)

end Lineage.Catalog
