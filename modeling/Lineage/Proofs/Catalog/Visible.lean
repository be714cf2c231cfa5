import Lineage.Proofs.Scan.Claims
import Lineage.Proofs.Scanner.Declared

namespace Lineage.Catalog

open Relation

variable {c : Catalog} {id above : TypeId} {types : List TypeId}

theorem load_of_superclass {above : Option TypeId} (known : c.superclass id = .ok above) :
    ∃ decl, c.load id = .ok decl ∧ above = decl.superclass.map (·.target) ∧
      ∀ t ∈ above, c.isPresent t = true := by
  obtain ⟨decl, loaded, known⟩ := bind_ok known
  refine ⟨decl, loaded, ?_⟩
  cases given : decl.superclass with
  | none =>
    simp only [given] at known
    cases known
    exact ⟨rfl, fun t member => by cases member⟩
  | some ref =>
    simp only [given] at known
    obtain ⟨target, there, rfl⟩ := map_ok known
    obtain ⟨rfl, present⟩ := present_of_loadTarget there
    refine ⟨rfl, fun t member => ?_⟩
    cases member
    exact present

theorem present_of_superclass {above : Option TypeId} (known : c.superclass id = .ok above) :
    c.isPresent id = true := by
  obtain ⟨decl, loaded, _, _⟩ := load_of_superclass known
  exact (present_of_load loaded).2

theorem leads_of_superclass (known : c.superclass id = .ok (some above)) :
    c.Leads TypeDecl.superLinks id above := by
  obtain ⟨decl, loaded, same, _⟩ := load_of_superclass known
  refine ⟨decl, (present_of_load loaded).1, ?_⟩
  rw [TypeDecl.superLinks, ← Option.toList_map, ← same]
  exact List.mem_singleton_self above

inductive Chain (c : Catalog) : TypeId → List TypeId → Prop
  | last {id : TypeId} : c.superclass id = .ok none → Chain c id []
  | next {id above : TypeId} {types : List TypeId} : c.superclass id = .ok (some above) →
    Chain c above types → Chain c id (above :: types)

theorem Chain.present (chain : c.Chain id types) : ∀ t ∈ id :: types, c.isPresent t = true := by
  induction chain with
  | last known =>
    intro t member
    rw [List.mem_singleton.mp member]
    exact present_of_superclass known
  | next known _ ih =>
    intro t member
    rcases List.mem_cons.mp member with rfl | member
    · exact present_of_superclass known
    · exact ih t member

theorem Chain.superclass (chain : c.Chain id types) : c.superclass id = .ok types.head? := by
  cases chain with
  | last known => exact known
  | next known _ => exact known

theorem Chain.reaches (chain : c.Chain id types) :
    ∀ t ∈ types, TransGen (c.Leads TypeDecl.superLinks) id t := by
  induction chain with
  | last _ =>
    intro t member
    cases member
  | next known _ ih =>
    intro t member
    rcases List.mem_cons.mp member with rfl | member
    · exact .single (leads_of_superclass known)
    · exact .head (leads_of_superclass known) (ih t member)

theorem Chain.reached (chain : c.Chain id types) :
    ∀ t ∈ id :: types, c.Reaches TypeDecl.superLinks id t := by
  intro t member
  rcases List.mem_cons.mp member with rfl | member
  · exact .refl
  · exact (chain.reaches t member).to_reflTransGen

theorem Chain.length_lt_rank (chain : c.Chain id types)
    (acyclic : c.AcyclicFrom TypeDecl.superLinks id) :
    types.length < c.rank TypeDecl.superLinks id := by
  induction chain with
  | last known =>
    obtain ⟨decl, loaded, _, _⟩ := load_of_superclass known
    exact rank_pos (present_of_load loaded).1
  | next known _ ih =>
    have leads := leads_of_superclass known
    have lower := rank_lt (acyclic _ .refl) leads
    have shorter := ih (acyclic.next leads)
    rw [List.length_cons]
    omega

theorem Chain.length_lt_typeCount (chain : c.Chain id types)
    (acyclic : c.AcyclicFrom TypeDecl.superLinks id) : types.length < c.typeCount :=
  (chain.length_lt_rank acyclic).trans_le rank_le_typeCount

theorem Chain.nodup (chain : c.Chain id types)
    (acyclic : c.AcyclicFrom TypeDecl.superLinks id) : (id :: types).Nodup := by
  induction chain with
  | last _ => exact List.nodup_singleton _
  | next known rest ih =>
    have leads := leads_of_superclass known
    refine List.nodup_cons.mpr ⟨fun again => ?_, ih (acyclic.next leads)⟩
    exact acyclic _ .refl ((Chain.next known rest).reaches _ again)

theorem Chain.ancestorsWithin (chain : c.Chain id types) {fuel : Nat}
    (enough : types.length < fuel) : c.ancestorsWithin fuel id = .ok types := by
  induction chain generalizing fuel with
  | last known =>
    obtain ⟨fuel, rfl⟩ := Nat.exists_eq_add_of_lt enough
    rw [Catalog.ancestorsWithin, known]
    rfl
  | next known _ ih =>
    cases fuel with
    | zero => cases enough
    | succ fuel =>
      have rest := ih (Nat.lt_of_succ_lt_succ enough)
      rw [Catalog.ancestorsWithin, known]
      show (_ :: ·) <$> c.ancestorsWithin fuel _ = _
      rw [rest]
      rfl

theorem Chain.ancestors (chain : c.Chain id types)
    (acyclic : c.AcyclicFrom TypeDecl.superLinks id) : c.ancestors id = .ok types :=
  chain.ancestorsWithin (chain.length_lt_typeCount acyclic)

theorem chain_of_ancestorsWithin {fuel : Nat} (found : c.ancestorsWithin fuel id = .ok types)
    (enough : c.rank TypeDecl.superLinks id ≤ fuel) (present : c.isPresent id = true)
    (acyclic : c.AcyclicFrom TypeDecl.superLinks id) : c.Chain id types := by
  induction fuel generalizing id types with
  | zero =>
    obtain ⟨decl, known, _⟩ := load_of_present present
    have some : 0 < c.rank TypeDecl.superLinks id := rank_pos known
    omega
  | succ fuel ih =>
    obtain ⟨above, known, found⟩ := bind_ok found
    cases above with
    | none =>
      cases found
      exact .last known
    | some above =>
      obtain ⟨further, rest, rfl⟩ := map_ok found
      obtain ⟨_, _, _, presentAbove⟩ := load_of_superclass known
      have leads := leads_of_superclass known
      have lower := rank_lt (acyclic _ .refl) leads
      exact .next known (ih rest (by omega) (presentAbove above rfl) (acyclic.next leads))

theorem chain_of_ancestors (found : c.ancestors id = .ok types) (present : c.isPresent id = true)
    (acyclic : c.AcyclicFrom TypeDecl.superLinks id) : c.Chain id types :=
  chain_of_ancestorsWithin found rank_le_typeCount present acyclic

theorem present_of_ancestors (found : c.ancestors id = .ok types) (some : types ≠ []) :
    c.isPresent id = true := by
  unfold ancestors at found
  cases fuel : c.typeCount with
  | zero =>
    rw [fuel] at found
    cases found
    exact absurd rfl some
  | succ fuel =>
    rw [fuel] at found
    obtain ⟨above, known, _⟩ := bind_ok found
    exact present_of_superclass known

theorem Grounded.chain (grounded : c.Grounded TypeDecl.superLinks id) :
    ∃ types, c.Chain id types := by
  induction bound : c.rank TypeDecl.superLinks id using Nat.strong_induction_on generalizing id with
  | _ bound ih =>
    obtain ⟨decl, found, loaded⟩ := load_of_present grounded.here
    have leads (t : TypeId) (member : t ∈ decl.superLinks) :
        c.Leads TypeDecl.superLinks id t := ⟨decl, found, member⟩
    have known := superclass_of_present loaded fun t member =>
      (grounded.next (leads t member)).here
    cases given : decl.superclass with
    | none =>
      rw [given] at known
      exact ⟨[], .last known⟩
    | some ref =>
      rw [given] at known
      have up := leads_of_superclass known
      obtain ⟨types, chain⟩ := ih _ (bound ▸ grounded.rank_lt up) (grounded.next up) rfl
      exact ⟨_, .next known chain⟩

def gained (c : Catalog) (visible : List Record) : List Record → List Record
  | [] => []
  | r :: rest =>
    if c.isInherited r.kind && !visible.any (·.kind = r.kind) then
      r :: c.gained (visible ++ [r]) rest
    else c.gained visible rest

theorem foldl_inherit (visible records : List Record) :
    records.foldl c.inherit visible = visible ++ c.gained visible records := by
  induction records generalizing visible with
  | nil => exact (List.append_nil visible).symm
  | cons r rest ih =>
    rw [List.foldl_cons, ih, gained, inherit]
    split
    · rw [List.append_assoc]
      rfl
    · rfl

theorem visibleRecords_of_chain (chain : c.Chain id types)
    (acyclic : c.AcyclicFrom TypeDecl.superLinks id) :
    c.visibleRecords id = .ok (c.recordsOf (.type id) ++
      c.gained (c.recordsOf (.type id)) (types.flatMap fun t => c.recordsOf (.type t))) := by
  have present := chain.present id List.mem_cons_self
  rw [visibleRecords, declaredRecords_of_loaded (loadElement_type_of_present present),
    chain.ancestors acyclic]
  show Except.ok _ = Except.ok _
  rw [← foldl_inherit, List.foldl_flatMap]

theorem chain_of_visibleRecords {visible : List Record} (known : c.visibleRecords id = .ok visible)
    (acyclic : c.AcyclicFrom TypeDecl.superLinks id) : ∃ types, c.Chain id types := by
  obtain ⟨own, declared, known⟩ := bind_ok known
  obtain ⟨types, above, _⟩ := bind_ok known
  obtain ⟨_, loaded, _⟩ := bind_ok declared
  obtain ⟨_, loaded, _⟩ := bind_ok loaded
  have present := (present_of_load loaded).2
  exact ⟨types, chain_of_ancestors above present acyclic⟩

theorem prefix_visibleRecords {visible : List Record} (known : c.visibleRecords id = .ok visible) :
    c.recordsOf (.type id) <+: visible := by
  obtain ⟨own, declared, known⟩ := bind_ok known
  obtain ⟨types, _, same⟩ := bind_ok known
  obtain ⟨_, _, rest⟩ := bind_ok declared
  cases rest
  cases same
  rw [← List.foldl_flatMap, foldl_inherit]
  exact List.prefix_append _ _

section

variable {kind : TypeId} {visible : List Record}

theorem any_kind_iff : visible.any (·.kind = kind) = true ↔ 0 < tally kind visible := by
  rw [tally_pos, List.any_eq_true]
  simp only [decide_eq_true_eq]

theorem tally_gained_of_barred (barred : c.isInherited kind = true → 0 < tally kind visible)
    (records : List Record) : tally kind (c.gained visible records) = 0 := by
  induction records generalizing visible with
  | nil => rfl
  | cons r rest ih =>
    rw [gained]
    split
    · rename_i gains
      rw [Bool.and_eq_true, Bool.not_eq_true', ← Bool.not_eq_true, any_kind_iff] at gains
      have other : r.kind ≠ kind := by
        rintro rfl
        exact gains.2 (barred gains.1)
      rw [tally_cons, tally_single, if_neg other, ih]
      intro inherited
      have some := barred inherited
      rw [tally_append]
      omega
    · exact ih barred

theorem tally_gained_le_one (records : List Record) : tally kind (c.gained visible records) ≤ 1 := by
  induction records generalizing visible with
  | nil => exact Nat.zero_le 1
  | cons r rest ih =>
    rw [gained]
    split
    · rw [tally_cons, tally_single]
      split
      · rename_i same
        rw [tally_gained_of_barred]
        intro _
        rw [tally_append, tally_single, if_pos same]
        omega
      · rw [Nat.zero_add]
        exact ih
    · exact ih

end

end Lineage.Catalog
