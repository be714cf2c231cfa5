namespace Lineage

/-- A computation over a state that may fail. What it did to the state before it failed stays. -/
structure Trial (ε σ α : Type) where
  run : σ → EStateM.Result ε σ α

namespace Trial

variable {ε σ α β : Type}

def andThen (t : Trial ε σ α) (next : α → Trial ε σ β) : Trial ε σ β where
  run s :=
    match t.run s with
    | .ok a s => (next a).run s
    | .error e s => .error e s

instance : Monad (Trial ε σ) where
  pure a := ⟨fun s => .ok a s⟩
  bind := andThen

def ofExcept (answer : Except ε α) : Trial ε σ α where
  run s :=
    match answer with
    | .ok a => .ok a s
    | .error e => .error e s

@[simp] theorem run_pure (a : α) (s : σ) : (pure a : Trial ε σ α).run s = .ok a s := rfl

theorem run_bind (t : Trial ε σ α) (next : α → Trial ε σ β) (s : σ) :
    (t >>= next).run s =
      match t.run s with
      | .ok a s => (next a).run s
      | .error e s => .error e s := rfl

@[simp] theorem run_ofExcept_ok (a : α) (s : σ) :
    (ofExcept (.ok a) : Trial ε σ α).run s = .ok a s := rfl

@[simp] theorem run_ofExcept_error (e : ε) (s : σ) :
    (ofExcept (.error e) : Trial ε σ α).run s = .error e s := rfl

theorem run_bind_of_ok {t : Trial ε σ α} {s middle : σ} {a : α} (h : t.run s = .ok a middle)
    (next : α → Trial ε σ β) : (t >>= next).run s = (next a).run middle := by
  rw [run_bind, h]

theorem run_bind_of_error {t : Trial ε σ α} {s middle : σ} {e : ε}
    (h : t.run s = .error e middle) (next : α → Trial ε σ β) :
    (t >>= next).run s = .error e middle := by
  rw [run_bind, h]

theorem run_bind_eq_ok {t : Trial ε σ α} {next : α → Trial ε σ β} {s last : σ} {b : β}
    (ran : (t >>= next).run s = .ok b last) :
    ∃ a middle, t.run s = .ok a middle ∧ (next a).run middle = .ok b last := by
  cases first : t.run s with
  | ok a middle =>
    rw [run_bind_of_ok first] at ran
    exact ⟨a, middle, rfl, ran⟩
  | error e middle =>
    rw [run_bind_of_error first] at ran
    cases ran

theorem ext {t u : Trial ε σ α} (h : ∀ s, t.run s = u.run s) : t = u := by
  cases t
  cases u
  congr
  funext s
  exact h s

instance : LawfulMonad (Trial ε σ) := LawfulMonad.mk' _
  (by
    intro α t
    refine ext fun s => ?_
    show (t.andThen _).run s = _
    unfold andThen
    cases h : t.run s <;> simp [h])
  (by intros; rfl)
  (by
    intro α β γ t f g
    refine ext fun s => ?_
    simp only [run_bind]
    cases t.run s <;> rfl)

end Trial

end Lineage
