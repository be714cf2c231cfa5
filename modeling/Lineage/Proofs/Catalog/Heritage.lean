import Lineage.Proofs.Catalog.Built
import Lineage.Proofs.Catalog.Visible

namespace Lineage.Catalog

open Relation

variable {c : Catalog} {id t : TypeId} {types : List TypeId} {r : Record}
  {visible nearer rest : List Record}

def Leading (c : Catalog) (before : List Record) (r : Record) : Prop :=
  c.isInherited r.kind = true ∧ ∀ x ∈ before, x.kind ≠ r.kind

instance (c : Catalog) (before : List Record) (r : Record) : Decidable (c.Leading before r) :=
  inferInstanceAs (Decidable (_ ∧ _))

/-- Of some records, the first of each inherited kind that no nearer record is of. -/
def handedDown (c : Catalog) (nearer records : List Record) : List Record :=
  (records.zipIdx.filter fun (r, n) => c.Leading (nearer ++ records.take n) r).map (·.1)

def heritage (c : Catalog) (id : TypeId) (types : List TypeId) : List Record :=
  types.zipIdx.flatMap fun (t, n) =>
    c.handedDown ((id :: types.take n).flatMap fun near => c.recordsOf (.type near))
      (c.recordsOf (.type t))

theorem handedDown_cons : c.handedDown nearer (r :: rest) =
    (if c.Leading nearer r then [r] else []) ++ c.handedDown (nearer ++ [r]) rest := by
  have onward (n : Nat) : nearer ++ (r :: rest).take (n + 1) = nearer ++ [r] ++ rest.take n := by
    rw [List.take_succ_cons, List.append_assoc, List.singleton_append]
  unfold handedDown
  rw [List.zipIdx_cons', List.filter_cons, List.filter_map]
  simp only [Function.comp_def, Prod.map, onward, List.take_zero, List.append_nil,
    decide_eq_true_eq]
  split <;> simp [Function.comp_def]

theorem gained_cons : c.gained visible (r :: rest) =
    if c.Leading visible r then r :: c.gained (visible ++ [r]) rest else c.gained visible rest := by
  have same : (c.isInherited r.kind && !visible.any (·.kind = r.kind)) = true ↔
      c.Leading visible r := by
    simp [Leading]
  rw [gained]
  simp only [same]

theorem gained_append (visible first rest : List Record) : c.gained visible (first ++ rest) =
    c.gained visible first ++ c.gained (visible ++ c.gained visible first) rest := by
  have whole := foldl_inherit (c := c) visible (first ++ rest)
  rw [List.foldl_append, foldl_inherit, foldl_inherit, List.append_assoc] at whole
  exact (List.append_cancel_left whole).symm

def Alike (c : Catalog) (visible nearer : List Record) : Prop :=
  ∀ kind, c.isInherited kind = true →
    ((∃ x ∈ visible, x.kind = kind) ↔ ∃ x ∈ nearer, x.kind = kind)

theorem Alike.leading_iff (alike : c.Alike visible nearer) :
    c.Leading visible r ↔ c.Leading nearer r := by
  refine and_congr_right fun inherited => ?_
  have same := not_congr (alike r.kind inherited)
  push Not at same
  exact same

theorem Alike.snoc (alike : c.Alike visible nearer) : c.Alike (visible ++ [r]) (nearer ++ [r]) := by
  intro kind inherited
  have same := alike kind inherited
  simp only [List.mem_append, List.mem_singleton, or_and_right, exists_or, same]

/-- A record that is not leading adds no kind. -/
theorem Alike.pass (alike : c.Alike visible nearer) (follows : ¬c.Leading visible r) :
    c.Alike visible (nearer ++ [r]) := by
  intro kind inherited
  have same := alike kind inherited
  simp only [List.mem_append, List.mem_singleton, or_and_right, exists_or, same]
  refine ⟨.inl, fun there => there.elim id ?_⟩
  rintro ⟨_, rfl, rfl⟩
  rw [Leading, not_and] at follows
  have known := follows inherited
  push Not at known
  exact same.mp known

/-- What becomes visible after some records is what is handed down past others of the same kinds. -/
theorem Alike.gained (alike : c.Alike visible nearer) (records : List Record) :
    c.gained visible records = c.handedDown nearer records ∧
      c.Alike (visible ++ c.gained visible records) (nearer ++ records) := by
  induction records generalizing visible nearer with
  | nil =>
    refine ⟨rfl, ?_⟩
    rw [Catalog.gained, List.append_nil, List.append_nil]
    exact alike
  | cons r rest ih =>
    have tail : nearer ++ r :: rest = nearer ++ [r] ++ rest := by
      rw [List.append_assoc, List.singleton_append]
    rw [handedDown_cons, gained_cons, tail]
    by_cases leads : c.Leading visible r
    · obtain ⟨same, after⟩ := ih (alike.snoc (r := r))
      rw [if_pos leads, if_pos (alike.leading_iff.mp leads), same]
      rw [same, List.append_assoc, List.singleton_append] at after
      exact ⟨rfl, after⟩
    · rw [if_neg leads, if_neg fun near => leads (alike.leading_iff.mpr near)]
      exact ih (alike.pass leads)

theorem Alike.gained_flatMap (alike : c.Alike visible nearer) (records : TypeId → List Record)
    (types : List TypeId) : c.gained visible (types.flatMap records) =
      types.zipIdx.flatMap fun (t, n) =>
        c.handedDown (nearer ++ (types.take n).flatMap records) (records t) := by
  induction types generalizing visible nearer with
  | nil => rfl
  | cons t rest ih =>
    obtain ⟨first, after⟩ := alike.gained (records t)
    rw [List.flatMap_cons, gained_append, ih after, first, List.zipIdx_cons', List.flatMap_cons,
      List.flatMap_map]
    simp only [List.take_zero, List.flatMap_nil, List.append_nil, Prod.map, List.take_succ_cons,
      List.flatMap_cons, List.append_assoc, id]

theorem superclass_of_leads {above : Option TypeId} (known : c.superclass id = .ok above)
    (leads : c.Leads TypeDecl.superLinks id t) : above = some t := by
  obtain ⟨decl, loaded, same, _⟩ := load_of_superclass known
  obtain ⟨stored, found, listed⟩ := leads
  rw [(present_of_load loaded).1] at found
  cases found
  rw [TypeDecl.superLinks, ← Option.toList_map, ← same] at listed
  exact Option.mem_toList.mp listed

theorem Chain.mem_of_reaches (chain : c.Chain id types)
    (reached : c.Reaches TypeDecl.superLinks id t) : t ∈ id :: types := by
  induction chain with
  | last known =>
    rcases ReflTransGen.cases_head reached with rfl | ⟨next, leads, _⟩
    · exact List.mem_cons_self
    · cases superclass_of_leads known leads
  | next known _ ih =>
    rcases ReflTransGen.cases_head reached with rfl | ⟨next, leads, onward⟩
    · exact List.mem_cons_self
    · cases superclass_of_leads known leads
      exact List.mem_cons_of_mem _ (ih onward)

/-- The records that are visible on a type: its own ones, then what its superclasses hand down, the
    nearest first. They are found exactly if the type and all its superclasses are present. -/
theorem visibleRecords_nearest_first (acyclic : c.AcyclicFrom TypeDecl.superLinks id) :
    ((∃ visible, c.visibleRecords id = .ok visible) ↔
      ∀ t, c.Reaches TypeDecl.superLinks id t → c.isPresent t = true) ∧
    ∀ visible, c.visibleRecords id = .ok visible →
      (∃ types, c.Chain id types ∧
        visible = c.recordsOf (.type id) ++ c.heritage id types) ∧
      ∀ kind, (∀ r ∈ c.recordsOf (.type id), r.kind ≠ kind) → tally kind visible ≤ 1 := by
  have alike : c.Alike (c.recordsOf (.type id)) (c.recordsOf (.type id)) := fun _ _ => Iff.rfl
  refine ⟨⟨fun ⟨visible, known⟩ => ?_, fun present => ?_⟩, fun visible known => ?_⟩
  · obtain ⟨types, chain⟩ := chain_of_visibleRecords known acyclic
    exact fun t reached => chain.present t (chain.mem_of_reaches reached)
  · obtain ⟨types, chain⟩ := Grounded.chain ⟨present, acyclic⟩
    exact ⟨_, visibleRecords_of_chain chain acyclic⟩
  · obtain ⟨types, chain⟩ := chain_of_visibleRecords known acyclic
    rw [visibleRecords_of_chain chain acyclic] at known
    cases known
    refine ⟨⟨types, chain, ?_⟩, fun kind undeclared => ?_⟩
    · rw [alike.gained_flatMap]
      rfl
    · have none : tally kind (c.recordsOf (.type id)) = 0 := by
        refine Nat.eq_zero_of_not_pos fun some => ?_
        obtain ⟨r, declared, same⟩ := tally_pos.mp some
        exact undeclared r declared same
      rw [tally_append, none, Nat.zero_add]
      exact tally_gained_le_one _

def storeys : Catalog := .ofDecls
  [rootDecl,
    ⟨⟨1⟩, "Passed", .recordKind, [], none, [], none, true, true⟩,
    ⟨⟨2⟩, "Shared", .recordKind, [], none, [], none, true, true⟩,
    ⟨⟨3⟩, "Kept", .recordKind, [], none, [], none, false, true⟩,
    ⟨⟨4⟩, "Gone", .classType, [], none, [], none, true, false⟩,
    ⟨⟨5⟩, "Top", .classType, [], some ⟨root, []⟩, [], none, false, true⟩,
    ⟨⟨6⟩, "Middle", .classType, [], some ⟨⟨5⟩, []⟩, [], none, false, true⟩,
    ⟨⟨7⟩, "Low", .classType, [], some ⟨⟨6⟩, []⟩, [], none, false, true⟩]
  []
  [(.type ⟨5⟩, ⟨⟨1⟩, [("at", .int 0)]⟩), (.type ⟨5⟩, ⟨⟨2⟩, [("at", .int 1)]⟩),
    (.type ⟨6⟩, ⟨⟨1⟩, [("at", .int 2)]⟩), (.type ⟨6⟩, ⟨⟨3⟩, []⟩), (.type ⟨6⟩, ⟨⟨4⟩, []⟩),
    (.type ⟨6⟩, ⟨⟨1⟩, [("at", .int 3)]⟩), (.type ⟨7⟩, ⟨⟨3⟩, []⟩), (.type ⟨7⟩, ⟨⟨3⟩, []⟩)]

def storeysVisible : List Record := [
  ⟨⟨3⟩, []⟩, ⟨⟨3⟩, []⟩, ⟨⟨1⟩, [("at", .int 2)]⟩, ⟨⟨2⟩, [("at", .int 1)]⟩]

theorem storeys_nearest_first :
    storeys.AcyclicFrom TypeDecl.superLinks ⟨7⟩ ∧
    (∀ t, storeys.Reaches TypeDecl.superLinks ⟨7⟩ t → storeys.isPresent t = true) ∧
    storeys.visibleRecords ⟨7⟩ = .ok storeysVisible ∧
    (∃ types, storeys.Chain ⟨7⟩ types ∧
      storeysVisible = storeys.recordsOf (.type ⟨7⟩) ++ storeys.heritage ⟨7⟩ types) ∧
    ∀ kind, (∀ r ∈ storeys.recordsOf (.type ⟨7⟩), r.kind ≠ kind) →
      tally kind storeysVisible ≤ 1 := by
  have descends : storeys.Descends TypeDecl.superLinks TypeId.index := by decide
  have grounded : storeys.Grounded TypeDecl.superLinks ⟨7⟩ := descends.grounded rfl
  have acyclic := grounded.acyclic
  have known : storeys.visibleRecords ⟨7⟩ = .ok storeysVisible := by cbv
  obtain ⟨answers, each⟩ := visibleRecords_nearest_first acyclic
  exact ⟨acyclic, answers.mp ⟨_, known⟩, known, each _ known⟩

end Lineage.Catalog
