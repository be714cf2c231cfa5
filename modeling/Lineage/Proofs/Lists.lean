import Mathlib.Data.List.Forall2

namespace Lineage

section

variable {α β : Type}

theorem nodup_eraseDups [BEq α] [LawfulBEq α] : ∀ as : List α, as.eraseDups.Nodup
  | [] => .nil
  | a :: rest => by
    have others := nodup_eraseDups (rest.filter fun b => !b == a)
    rw [List.eraseDups_cons, List.nodup_cons]
    exact ⟨by simp, others⟩
termination_by as => as.length
decreasing_by exact Nat.lt_succ_of_le (List.length_filter_le ..)

theorem flatMap_subset_iff {f : α → List β} {as : List α} {bs : List β} :
    as.flatMap f ⊆ bs ↔ ∀ a ∈ as, f a ⊆ bs := by
  constructor
  · intro all a listed b there
    exact all (List.mem_flatMap.mpr ⟨a, listed, there⟩)
  · intro each b there
    obtain ⟨a, listed, there⟩ := List.mem_flatMap.mp there
    exact each a listed there

/-- What holds of each element after those before it holds of the first, and of each later one. -/
theorem forall_split_cons {P : List α → α → Prop} {x : α} {before rest : List α} :
    (∀ first y last, x :: rest = first ++ y :: last → P (before ++ first) y) ↔
      P before x ∧ ∀ first y last, rest = first ++ y :: last → P ((before ++ [x]) ++ first) y := by
  constructor
  · intro each
    have here := each [] x rest rfl
    rw [List.append_nil] at here
    refine ⟨here, fun first y last split => ?_⟩
    have later := each (x :: first) y last (by rw [split, List.cons_append])
    rwa [List.append_assoc, List.singleton_append]
  · intro ⟨here, later⟩ first y last split
    cases first with
    | nil =>
      cases split
      rw [List.append_nil]
      exact here
    | cons z first =>
      cases split
      have found := later first y last rfl
      rwa [List.append_assoc, List.singleton_append] at found

end

/-! Related lists and options -/

section

variable {α β γ : Type} {R : α → β → Prop} {as : List α} {bs : List β} {a : Option α} {b : Option β}

theorem map_eq_of_forall₂ {f : α → γ} {g : β → γ} (related : List.Forall₂ R as bs)
    (same : ∀ a b, R a b → f a = g b) : as.map f = bs.map g := by
  induction related with
  | nil => rfl
  | cons head _ ih => rw [List.map_cons, List.map_cons, same _ _ head, ih]

section

variable {test : α → Bool} {test' : β → Bool} (related : List.Forall₂ R as bs)
  (same : ∀ a b, R a b → test a = test' b)
include related same

theorem any_eq_of_forall₂ : as.any test = bs.any test' := by
  have passed := congrArg (·.any id) (map_eq_of_forall₂ related same)
  rwa [List.any_map, List.any_map] at passed

theorem findIdx?_eq_of_forall₂ : as.findIdx? test = bs.findIdx? test' := by
  have passed := congrArg (·.findIdx? id) (map_eq_of_forall₂ related same)
  rwa [List.findIdx?_map, List.findIdx?_map] at passed

end

theorem isEmpty_eq_of_forall₂ (related : List.Forall₂ R as bs) : as.isEmpty = bs.isEmpty := by
  cases related <;> rfl

theorem getElem?_related (related : List.Forall₂ R as bs) (index : Nat) :
    Option.Rel R as[index]? bs[index]? := by
  induction related generalizing index with
  | nil => exact .none
  | cons head _ ih =>
    cases index with
    | zero => exact .some head
    | succ index => exact ih index

theorem exists_of_forall₂ (related : List.Forall₂ R as bs) : ∀ a ∈ as, ∃ b ∈ bs, R a b := by
  induction related with
  | nil => exact fun a none => absurd none List.not_mem_nil
  | cons head _ ih =>
    intro a member
    rcases List.mem_cons.mp member with rfl | member
    · exact ⟨_, List.mem_cons_self, head⟩
    · obtain ⟨b, listed, same⟩ := ih a member
      exact ⟨b, List.mem_cons_of_mem _ listed, same⟩

theorem rel_cases (related : Option.Rel R a b) :
    (a = none ∧ b = none) ∨ ∃ x y, a = some x ∧ b = some y ∧ R x y := by
  cases related with
  | none => exact .inl ⟨rfl, rfl⟩
  | some related => exact .inr ⟨_, _, rfl, rfl, related⟩

theorem isSome_eq_of_rel (related : Option.Rel R a b) : a.isSome = b.isSome := by
  cases related <;> rfl

theorem toList_related (related : Option.Rel R a b) : List.Forall₂ R a.toList b.toList := by
  cases related with
  | none => exact .nil
  | some same => exact .cons same .nil

theorem forall₂_map {f : α → β} (each : ∀ a, R a (f a)) (as : List α) : List.Forall₂ R as (as.map f) :=
  List.forall₂_map_right_iff.mpr (List.forall₂_same.mpr fun a _ => each a)

theorem rel_map {f : α → β} (each : ∀ a, R a (f a)) (a : Option α) : Option.Rel R a (a.map f) := by
  cases a with
  | none => exact .none
  | some a => exact .some (each a)

end

section

variable {α : Type} {R : α → α → Prop}

theorem eq_of_forall₂ {as bs : List α} (related : List.Forall₂ R as bs)
    (same : ∀ a b, R a b → a = b) : as = bs := by
  have equal := related.imp same
  rwa [List.forall₂_eq_eq_eq] at equal

theorem eq_of_rel {a b : Option α} (related : Option.Rel R a b) (same : ∀ a b, R a b → a = b) :
    a = b := by
  cases related with
  | none => rfl
  | some head => rw [same _ _ head]

theorem rel_self {a : Option α} (each : ∀ x ∈ a.toList, R x x) : Option.Rel R a a := by
  cases a with
  | none => exact .none
  | some x => exact .some (each x (List.mem_singleton.mpr rfl))

theorem biUnique_eq : Relator.BiUnique (@Eq α) :=
  ⟨fun _ _ _ first second => first.trans second.symm, fun _ _ _ first second => first.symm.trans second⟩

end

end Lineage
