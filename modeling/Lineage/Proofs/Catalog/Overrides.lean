import Lineage.Proofs.Catalog.Built
import Lineage.Proofs.Catalog.Links
import Lineage.Scan.Override

namespace Lineage.Catalog

variable {c : Catalog} {id target against : TypeId} {member candidate : MemberDecl}
  {seen todo types : List TypeId}

def Known (c : Catalog) (todo : List TypeId) : Prop :=
  ∀ a ∈ todo, ∀ t, c.Reaches TypeDecl.above a t → ∃ decl, c.type? t = some decl

theorem Grounded.known (grounded : c.Grounded TypeDecl.above id) : c.Known [id] := by
  intro a listed t reached
  rw [List.mem_singleton.mp listed] at reached
  obtain ⟨decl, found, _⟩ := load_of_present (grounded.present t reached)
  exact ⟨decl, found⟩

theorem Known.typeDecl (known : c.Known (id :: todo)) :
    ∃ decl, c.type? id = some decl ∧ c.typeDecl id = .ok decl := by
  obtain ⟨decl, found⟩ := known id List.mem_cons_self id .refl
  exact ⟨decl, found, by rw [Catalog.typeDecl, found]⟩

theorem mem_supertypes {decl : TypeDecl} {t : TypeId} :
    t ∈ decl.supertypes.map (·.target) ↔ t ∈ decl.above := by
  rw [TypeDecl.supertypes, TypeDecl.above, TypeDecl.superLinks, List.map_append, List.mem_append,
    List.mem_append]
  exact or_comm

theorem climbsTo_answers (target : TypeId) (known : c.Known todo) :
    ∃ answer, c.climbsTo target seen todo = .ok answer := by
  induction seen, todo using climbsTo.induct c target with
  | case1 seen => exact ⟨false, by rw [climbsTo]⟩
  | case2 seen id todo old ih =>
    obtain ⟨answer, climbed⟩ := ih fun a member => known a (List.mem_cons_of_mem _ member)
    exact ⟨answer, by rw [climbsTo, dif_pos old, climbed]⟩
  | case3 seen id todo new e failed =>
    obtain ⟨decl, _, here⟩ := known.typeDecl
    rw [here] at failed
    cases failed
  | case4 seen id todo new decl here lower above reached =>
    refine ⟨true, ?_⟩
    rw [climbsTo, dif_neg new]
    split
    · rename_i e failed
      rw [here] at failed
      cases failed
    · rename_i same hereToo
      rw [here] at hereToo
      cases hereToo
      exact if_pos reached
  | case5 seen id todo new decl here lower above notYet ih =>
    have rest : c.Known (above.reverse ++ todo) := by
      intro a member t reached
      rcases List.mem_append.mp member with up | waiting
      · have leads : c.Leads TypeDecl.above id a :=
          ⟨decl, type?_of_typeDecl here, mem_supertypes.mp (List.mem_reverse.mp up)⟩
        exact known id List.mem_cons_self t (reached.head leads)
      · exact known a (List.mem_cons_of_mem _ waiting) t reached
    obtain ⟨answer, climbed⟩ := ih rest
    refine ⟨answer, ?_⟩
    rw [climbsTo, dif_neg new]
    split
    · rename_i e failed
      rw [here] at failed
      cases failed
    · rename_i same hereToo
      rw [here] at hereToo
      cases hereToo
      exact (if_neg notYet).trans climbed

theorem isAssignable_answers (target : TypeId) (known : c.Known [id]) :
    ∃ answer, c.isAssignable target id = .ok answer := by
  unfold isAssignable
  split
  · exact ⟨true, rfl⟩
  · exact climbsTo_answers target known

theorem resolveParameter_answers (index : Nat) (found : c.memberDecl member.id = .ok member)
    (known : c.Known [against]) :
    ∃ answer, c.resolveParameter member.id index against = .ok answer := by
  obtain ⟨start, _, here⟩ := known.typeDecl
  simp only [resolveParameter, found, here, Bind.bind, Except.bind]
  split
  · exact ⟨_, rfl⟩
  · exact ⟨_, rfl⟩
  · split <;> exact ⟨_, rfl⟩

theorem resolvesTo_answers (index : Nat) (found : c.memberDecl member.id = .ok member)
    (known : c.Known [against]) : ∃ answer, c.resolvesTo member.id against index types = .ok answer := by
  induction types generalizing index with
  | nil => exact ⟨true, rfl⟩
  | cons type rest ih =>
    obtain ⟨resolved, asked⟩ := resolveParameter_answers index found known
    simp only [resolvesTo, asked, Bind.bind, Except.bind]
    split
    · exact ih (index + 1)
    · exact ⟨false, rfl⟩

theorem parameterTypes_of_present (found : c.memberDecl member.id = .ok member)
    (present : c.isPresent member.declaring = true) :
    c.parameterTypes member.id = .ok (member.params.map (c.eraseArg member.declaring)) := by
  obtain ⟨decl, _, loaded⟩ := load_of_present present
  simp only [parameterTypes, loadMember, found, loaded, Bind.bind, Except.bind]
  rfl

/-- Whether a member overrides another has an answer where all that is above it is known. -/
theorem overrides_answers (found : c.memberDecl member.id = .ok member)
    (present : c.isPresent member.declaring = true) (known : c.Known [member.declaring])
    (foundToo : c.memberDecl candidate.id = .ok candidate)
    (presentToo : c.isPresent candidate.declaring = true) :
    ∃ answer, c.overrides member.id candidate.id = .ok answer := by
  simp only [overrides, found, foundToo, Bind.bind, Except.bind]
  split
  · simp only [sameParameters, parameterTypes_of_present found present,
      parameterTypes_of_present foundToo presentToo, Bind.bind, Except.bind]
    split
    · split
      · exact ⟨true, rfl⟩
      · obtain ⟨below, asked⟩ := isAssignable_answers candidate.declaring known
        simp only [asked]
        split
        · exact resolvesTo_answers 0 foundToo known
        · exact ⟨false, rfl⟩
    · exact ⟨false, rfl⟩
  · exact ⟨false, rfl⟩

end Lineage.Catalog
