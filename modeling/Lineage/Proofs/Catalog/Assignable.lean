import Lineage.Proofs.Catalog.Overrides

namespace Lineage.Catalog

open Relation

variable {c : Catalog} {target source id a : TypeId} {decl : TypeDecl} {seen todo more : List TypeId}

theorem met_of_skip (known : id ∈ seen) (met : a ∈ seen ∨ a ∈ id :: todo) : a ∈ seen ∨ a ∈ todo := by
  rcases met with visited | waiting
  · exact .inl visited
  · rcases List.mem_cons.mp waiting with rfl | waiting
    · exact .inl known
    · exact .inr waiting

theorem met_of_enter (met : a ∈ seen ∨ a ∈ id :: todo) : a ∈ id :: seen ∨ a ∈ more ++ todo := by
  rcases met with visited | waiting
  · exact .inl (List.mem_cons_of_mem _ visited)
  · rcases List.mem_cons.mp waiting with rfl | waiting
    · exact .inl List.mem_cons_self
    · exact .inr (List.mem_append_right _ waiting)

/-- A search that has not met its target: no type that it has seen leads there, and whatever such a
    type leads to is seen or waits. -/
structure Missed (c : Catalog) (target : TypeId) (seen todo : List TypeId) : Prop where
  target : ∀ a ∈ seen, ¬c.Leads TypeDecl.above a target
  onward : ∀ a ∈ seen, ∀ b, c.Leads TypeDecl.above a b → b ∈ seen ∨ b ∈ todo

theorem Missed.nothing : c.Missed target [] todo := ⟨nofun, nofun⟩

theorem Missed.skip (missed : c.Missed target seen (id :: todo)) (known : id ∈ seen) :
    c.Missed target seen todo :=
  ⟨missed.target, fun a visited b leads => met_of_skip known (missed.onward a visited b leads)⟩

theorem Missed.enter (missed : c.Missed target seen (id :: todo)) (found : c.type? id = some decl)
    (elsewhere : target ∉ decl.supertypes.map (·.target)) :
    c.Missed target (id :: seen) ((decl.supertypes.map (·.target)).reverse ++ todo) := by
  have own (b : TypeId) (leads : c.Leads TypeDecl.above id b) :
      b ∈ decl.supertypes.map (·.target) := by
    obtain ⟨same, foundToo, listed⟩ := leads
    rw [found] at foundToo
    cases foundToo
    exact mem_supertypes.mpr listed
  constructor
  · intro a visited leads
    rcases List.mem_cons.mp visited with rfl | visited
    · exact elsewhere (own target leads)
    · exact missed.target a visited leads
  · intro a visited b leads
    rcases List.mem_cons.mp visited with rfl | visited
    · exact .inr (List.mem_append_left _ (List.mem_reverse.mpr (own b leads)))
    · exact met_of_enter (missed.onward a visited b leads)

/-- When nothing waits any more, the seen types lead only to each other. -/
theorem Missed.apart (missed : c.Missed target seen []) (known : id ∈ seen) :
    ¬TransGen (c.Leads TypeDecl.above) id target := by
  have inside (b : TypeId) (reached : c.Reaches TypeDecl.above id b) : b ∈ seen := by
    induction reached with
    | refl => exact known
    | tail _ leads ih =>
      rcases missed.onward _ ih _ leads with there | waiting
      · exact there
      · cases waiting
  intro path
  obtain ⟨last, reached, leads⟩ := TransGen.tail'_iff.mp path
  exact missed.target last (inside last reached) leads

theorem leads_of_climbsTo (climbed : c.climbsTo target seen todo = .ok true) :
    ∃ a ∈ todo, TransGen (c.Leads TypeDecl.above) a target := by
  induction seen, todo using climbsTo.induct c target with
  | case1 seen =>
    rw [climbsTo] at climbed
    cases climbed
  | case2 seen id todo known ih =>
    rw [climbsTo_seen known] at climbed
    obtain ⟨a, waiting, path⟩ := ih climbed
    exact ⟨a, List.mem_cons_of_mem _ waiting, path⟩
  | case3 seen id todo new e failed =>
    rw [climbsTo_new new, failed] at climbed
    cases climbed
  | case4 seen id todo new decl found lower above there =>
    have leads : c.Leads TypeDecl.above id target :=
      ⟨decl, type?_of_typeDecl found, mem_supertypes.mp there⟩
    exact ⟨id, List.mem_cons_self, .single leads⟩
  | case5 seen id todo new decl found lower above elsewhere ih =>
    rw [climbsTo_new new, found] at climbed
    obtain ⟨a, waiting, path⟩ := ih ((if_neg elsewhere).symm.trans climbed)
    rcases List.mem_append.mp waiting with up | waiting
    · have leads : c.Leads TypeDecl.above id a :=
        ⟨decl, type?_of_typeDecl found, mem_supertypes.mp (List.mem_reverse.mp up)⟩
      exact ⟨id, List.mem_cons_self, .head leads path⟩
    · exact ⟨a, List.mem_cons_of_mem _ waiting, path⟩

theorem apart_of_climbsTo (missed : c.Missed target seen todo)
    (climbed : c.climbsTo target seen todo = .ok false) :
    ∀ a, a ∈ seen ∨ a ∈ todo → ¬TransGen (c.Leads TypeDecl.above) a target := by
  induction seen, todo using climbsTo.induct c target with
  | case1 seen =>
    intro a met
    exact missed.apart (met.resolve_right List.not_mem_nil)
  | case2 seen id todo known ih =>
    rw [climbsTo_seen known] at climbed
    intro a met
    exact ih (missed.skip known) climbed a (met_of_skip known met)
  | case3 seen id todo new e failed =>
    rw [climbsTo_new new, failed] at climbed
    cases climbed
  | case4 seen id todo new decl found lower above there =>
    rw [climbsTo_new new, found] at climbed
    cases (if_pos there).symm.trans climbed
  | case5 seen id todo new decl found lower above elsewhere ih =>
    rw [climbsTo_new new, found] at climbed
    have rest := ih (missed.enter (type?_of_typeDecl found) elsewhere)
      ((if_neg elsewhere).symm.trans climbed)
    intro a met
    exact rest a (met_of_enter met)

theorem climbsTo_eq_true_iff {answer : Bool} (climbed : c.climbsTo target [] [source] = .ok answer) :
    answer = true ↔ TransGen (c.Leads TypeDecl.above) source target := by
  cases answer with
  | true =>
    obtain ⟨a, start, path⟩ := leads_of_climbsTo climbed
    rw [List.mem_singleton.mp start] at path
    exact ⟨fun _ => path, fun _ => rfl⟩
  | false =>
    have apart := apart_of_climbsTo .nothing climbed source (.inr List.mem_cons_self)
    exact ⟨nofun, fun path => absurd path apart⟩

/-- Where all that is above a type is known, a type can be used for another exactly if the other is
    the type itself, the root or somewhere above it. Links may form cycles. -/
theorem isAssignable_iff_above (c : Catalog) (target source : TypeId)
    (issued : ∀ t, c.Reaches TypeDecl.above source t → t.index < c.typeCount) :
    ∃ answer, c.isAssignable target source = .ok answer ∧
      (answer = true ↔ target = source ∨ target = root ∨
        TransGen (c.Leads TypeDecl.above) source target) := by
  have known : c.Known [source] := by
    intro a start t reached
    rw [List.mem_singleton.mp start] at reached
    exact ⟨_, List.getElem?_eq_getElem (issued t reached)⟩
  obtain ⟨answer, asked⟩ := isAssignable_answers target known
  refine ⟨answer, asked, ?_⟩
  unfold isAssignable at asked
  split at asked
  · rename_i near
    cases asked
    exact ⟨fun _ => near.imp_right .inl, fun _ => rfl⟩
  · rename_i far
    rw [climbsTo_eq_true_iff asked]
    constructor
    · exact fun path => .inr (.inr path)
    · intro above
      rcases above with same | top | path
      · exact absurd (.inl same) far
      · exact absurd (.inr top) far
      · exact path

def looped : Catalog := .ofDecls
  [rootDecl,
    ⟨⟨1⟩, "First", .interface, [], none, [⟨⟨2⟩, []⟩], none, false, true⟩,
    ⟨⟨2⟩, "Second", .interface, [], none, [⟨⟨1⟩, []⟩], none, false, false⟩,
    ⟨⟨3⟩, "Low", .classType, [], some ⟨root, []⟩, [⟨⟨1⟩, []⟩], none, false, true⟩]
  []
  []

theorem looped_above :
    (∀ t, looped.Reaches TypeDecl.above ⟨3⟩ t → t.index < looped.typeCount) ∧
    looped.isAssignable ⟨2⟩ ⟨3⟩ = .ok true ∧ TransGen (looped.Leads TypeDecl.above) ⟨3⟩ ⟨2⟩ := by
  have closed : ∀ decl ∈ looped.types, ∀ b ∈ decl.above, b.index < looped.typeCount := by decide
  have issued : ∀ t, looped.Reaches TypeDecl.above ⟨3⟩ t → t.index < looped.typeCount :=
    fun t reached => issued_of_reaches closed (by decide) reached
  obtain ⟨answer, asked, above⟩ := isAssignable_iff_above looped ⟨2⟩ ⟨3⟩ issued
  have found : looped.isAssignable ⟨2⟩ ⟨3⟩ = .ok true := by cbv
  rw [found] at asked
  cases asked
  rcases above.mp rfl with same | top | path
  · cases same
  · cases top
  · exact ⟨issued, found, path⟩

end Lineage.Catalog
