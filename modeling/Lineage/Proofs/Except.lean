import Lineage.Proofs.Lists

namespace Lineage

variable {α β ε : Type}

theorem bind_ok {first : Except ε α} {next : α → Except ε β} {b : β}
    (h : first >>= next = .ok b) : ∃ a, first = .ok a ∧ next a = .ok b := by
  cases first with
  | error e => cases h
  | ok a => exact ⟨a, rfl, h⟩

theorem map_ok {first : Except ε α} {f : α → β} {b : β} (h : f <$> first = .ok b) :
    ∃ a, first = .ok a ∧ f a = b := by
  cases first with
  | error e => cases h
  | ok a =>
    cases h
    exact ⟨a, rfl, rfl⟩

theorem mapM_of_ok {f : α → Except ε β} {g : α → β} {as : List α}
    (each : ∀ a ∈ as, f a = .ok (g a)) : as.mapM f = .ok (as.map g) := by
  induction as with
  | nil => rfl
  | cons a as ih =>
    have first := each a (by simp)
    have rest := ih fun b member => each b (by simp [member])
    rw [List.mapM_cons, first, rest]
    rfl

theorem mapM_forall₂ {R : α → β → Prop} {f : α → Except ε β} {as : List α} {bs : List β}
    (mapped : as.mapM f = .ok bs) (each : ∀ a ∈ as, ∀ b, f a = .ok b → R a b) :
    List.Forall₂ R as bs := by
  induction as generalizing bs with
  | nil =>
    cases mapped
    exact .nil
  | cons a rest ih =>
    rw [List.mapM_cons] at mapped
    obtain ⟨b, first, mapped⟩ := bind_ok mapped
    obtain ⟨others, later, mapped⟩ := bind_ok mapped
    cases mapped
    apply List.Forall₂.cons (each a (List.mem_cons_self ..) b first)
    exact ih later fun x there => each x (List.mem_cons_of_mem _ there)

theorem mapM_ok {f : α → Except ε β} {as : List α} {bs : List β} (h : as.mapM f = .ok bs) :
    (∀ a ∈ as, ∃ b ∈ bs, f a = .ok b) ∧ ∀ b ∈ bs, ∃ a ∈ as, f a = .ok b := by
  have images : List.Forall₂ (fun a b => f a = .ok b) as bs := mapM_forall₂ h fun _ _ _ known => known
  exact ⟨exists_of_forall₂ images, exists_of_forall₂ images.flip⟩

theorem mapM_rel {R : α → β → Prop} {f : α → Except ε β} {a : Option α} {b : Option β}
    (mapped : a.mapM f = .ok b) (each : ∀ x, a = some x → ∀ y, f x = .ok y → R x y) :
    Option.Rel R a b := by
  cases a with
  | none =>
    cases mapped
    exact .none
  | some x =>
    obtain ⟨y, found, rfl⟩ := map_ok mapped
    exact .some (each x rfl y found)

theorem isSome_of_mapM {f : α → Except ε β} {a : Option α} {b : Option β} (mapped : a.mapM f = .ok b) :
    b.isSome = a.isSome :=
  (isSome_eq_of_rel (mapM_rel (R := fun _ _ => True) mapped fun _ _ _ _ => trivial)).symm

def Succeeds (x : Except ε α) : Prop := ∃ a, x = .ok a

theorem succeeds_ok (a : α) : Succeeds (.ok a : Except ε α) := ⟨a, rfl⟩

theorem succeeds_bind {x : Except ε α} {f : α → Except ε β} {Q : Prop}
    (next : ∀ a, x = .ok a → (Succeeds (f a) ↔ Q)) : Succeeds (x >>= f) ↔ Succeeds x ∧ Q := by
  cases x with
  | error e => exact ⟨nofun, nofun⟩
  | ok a => exact (next a rfl).trans (and_iff_right (succeeds_ok a)).symm

theorem succeeds_then {x : Except ε α} {f : α → β} :
    Succeeds (x >>= fun a => pure (f a)) ↔ Succeeds x :=
  (succeeds_bind fun a _ => iff_of_true (succeeds_ok (f a)) trivial).trans (and_iff_left trivial)

theorem succeeds_mapM {f : α → Except ε β} {as : List α} :
    Succeeds (as.mapM f) ↔ ∀ a ∈ as, Succeeds (f a) := by
  induction as with
  | nil => exact iff_of_true (succeeds_ok []) nofun
  | cons a rest ih =>
    rw [List.mapM_cons, List.forall_mem_cons, ← ih]
    exact succeeds_bind fun _ _ => succeeds_then

theorem succeeds_optionMapM {f : α → Except ε β} {o : Option α} :
    Succeeds (o.mapM f) ↔ ∀ a ∈ o.toList, Succeeds (f a) := by
  cases o with
  | none => exact iff_of_true (succeeds_ok none) nofun
  | some a =>
    rw [Option.toList_some, List.forall_mem_singleton]
    exact succeeds_then

end Lineage
