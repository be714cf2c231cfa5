import Lineage.Proofs.Scan.Follow

namespace Lineage

/-- What a round leads to may as well be done in the round. -/
theorem bind_round {m : Type → Type} [Monad m] [LawfulMonad m] {α β : Type} (plain : m Bool)
    (enter : m Unit) (level : m β) (above : m (Option α)) {next : α × β → m Unit}
    {arrive : β → Option α → m Unit} (ends : ∀ left, arrive left none = pure ())
    (goes : ∀ above left, next (above, left) = arrive left (some above)) :
    (do
      let found ← (do
        let plain ← plain
        if plain then pure none
        else
          enter
          let left ← level
          let above ← above
          pure (above.map (·, left)))
      found.elim (pure ()) next) =
    (do
      let plain ← plain
      if plain then pure ()
      else
        enter
        let left ← level
        above >>= arrive left) := by
  rw [bind_assoc]
  refine bind_congr fun plain => ?_
  cases plain with
  | true => exact pure_bind _ _
  | false =>
    simp only [Bool.false_eq_true, ↓reduceIte, bind_assoc, pure_bind]
    refine bind_congr fun _ => bind_congr fun left => bind_congr fun above => ?_
    cases above with
    | none => exact (ends left).symm
    | some above => exact goes above left

namespace Course

variable {α β : Type} {c : Course α} {i : Nat}

theorem run_bind_of_run {after : Nat} {a : α} {log : List Event}
    (ran : c.run i = ⟨.ok a, after, log⟩) (next : α → Course β) :
    (c >>= next).run i =
      let rest := (next a).run after
      ⟨rest.answer, rest.index, log ++ rest.events⟩ := by
  rw [run_bind_of_ok (congrArg Passage.answer ran), ran]

theorem run_contain_of_run {c : Course Unit} {after : Nat} {log : List Event}
    (ran : c.run i = ⟨.ok (), after, log⟩) (on : Element) :
    (c.contain on).run i = ⟨.ok (), after, log⟩ := by
  rw [run_contain_of_ok (congrArg Passage.answer ran), ran]

theorem answer_bind_eq_ok {next : α → Course β} {b : β}
    (ended : ((c >>= next).run i).answer = .ok b) :
    ∃ a later, (c.run i).answer = .ok a ∧ ((next a).run later).answer = .ok b := by
  cases first : (c.run i).answer with
  | ok a =>
    rw [run_bind_of_ok first] at ended
    exact ⟨a, (c.run i).index, rfl, ended⟩
  | error e =>
    rw [run_bind_of_error first] at ended
    cases ended

/-- Courses that go on alike wherever the first part gives an answer are the same. -/
theorem bind_congr_of_answer {next other : α → Course β}
    (same : ∀ i a, (c.run i).answer = .ok a → next a = other a) : c >>= next = c >>= other := by
  refine Course.ext fun i => ?_
  cases first : (c.run i).answer with
  | ok a => rw [run_bind_of_ok first, run_bind_of_ok first, same i a first]
  | error e => rw [run_bind_of_error first, run_bind_of_error first]

end Course

namespace Scan

open Walk

variable {σ ο : Type} {s : Scan σ ο}

/-- One round of the loop of an inherited walk: what is claimed of a type is shown. Tells the type to
    go on with and what is claimed then, or that the loop ends. It may end early, with the last
    claim. -/
def inheritedRound (s : Scan σ ο) (early : Bool) (source id : TypeId) (index : Nat)
    (claims : Option Claims) : Walk σ ο (Option (TypeId × Option Claims)) := do
  if id = Catalog.root || early && claims.any (·.remaining = 0) then pure none
  else
    let plain ← ask (s.scanner.isPlainType id)
    if plain then pure none
    else
      s.enter index
      let left ← s.inheritedLevel source id index claims
      let above ← ask (s.scanner.catalog.superclass id)
      pure (above.map (·, left))

def inheritedLoop (s : Scan σ ο) (early : Bool) (source : TypeId) :
    Nat → TypeId → Nat → Option Claims → Walk σ ο Unit
  | 0, _, _, _ => pure ()
  | fuel + 1, id, index, claims =>
    contain (.type id) do
      let next ← s.inheritedRound early source id index claims
      next.elim (pure ()) fun next => s.inheritedLoop early source fuel next.1 (index + 1) next.2

def inheritedRun (s : Scan σ ο) (early : Bool) (fuel : Nat) (source : TypeId) : Walk σ ο Unit :=
  contain (.type source) do
    let alone ← ask (s.scanner.catalog.isWithoutHierarchy .inherited (.type source))
    if alone then s.element (.type source) else s.inheritedLoop early source fuel source 0 none

theorem inheritedLoop_early (source : TypeId) (fuel : Nat) (id : TypeId) (index : Nat)
    (claims : Option Claims) :
    s.inheritedLoop true source fuel id index claims =
      s.inheritedFrom source fuel id index claims := by
  induction fuel generalizing id index claims with
  | zero => rfl
  | succ fuel ih =>
    unfold inheritedLoop inheritedFrom inheritedRound
    congr 1
    rw [Bool.true_and]
    split
    · rfl
    · exact bind_round (ask (s.scanner.isPlainType id)) (s.enter index)
        (s.inheritedLevel source id index claims) (ask (s.scanner.catalog.superclass id))
        (fun _ => rfl) fun above left => ih above (index + 1) left

theorem inheritedRun_early (fuel : Nat) (source : TypeId) :
    s.inheritedRun true fuel source = s.inheritedType fuel source := by
  unfold inheritedRun inheritedType
  rw [inheritedLoop_early]

end Scan

namespace Terrain

open Course

variable {t : Terrain}

def inheritedRound (t : Terrain) (early : Bool) (source id : TypeId) (index : Nat)
    (claims : Option Scan.Claims) : Course (Option (TypeId × Option Scan.Claims)) := do
  if id = Catalog.root || early && claims.any (·.remaining = 0) then pure none
  else
    let plain ← ask (t.scanner.isPlainType id)
    if plain then pure none
    else
      enter index
      let left ← t.inheritedLevel source id index claims
      let above ← ask (t.scanner.catalog.superclass id)
      pure (above.map (·, left))

def inheritedLoop (t : Terrain) (early : Bool) (source : TypeId) :
    Nat → TypeId → Nat → Option Scan.Claims → Course Unit
  | 0, _, _, _ => pure ()
  | fuel + 1, id, index, claims =>
    contain (.type id) do
      let next ← t.inheritedRound early source id index claims
      next.elim (pure ()) fun next => t.inheritedLoop early source fuel next.1 (index + 1) next.2

def inheritedRun (t : Terrain) (early : Bool) (fuel : Nat) (source : TypeId) : Course Unit :=
  contain (.type source) do
    let alone ← ask (t.scanner.catalog.isWithoutHierarchy .inherited (.type source))
    if alone then t.element (.type source) else t.inheritedLoop early source fuel source 0 none

theorem inheritedLoop_early (source : TypeId) (fuel : Nat) (id : TypeId) (index : Nat)
    (claims : Option Scan.Claims) :
    t.inheritedLoop true source fuel id index claims =
      t.inheritedFrom source fuel id index claims := by
  induction fuel generalizing id index claims with
  | zero => rfl
  | succ fuel ih =>
    unfold inheritedLoop inheritedFrom inheritedRound
    congr 1
    rw [Bool.true_and]
    split
    · rfl
    · exact bind_round (ask (t.scanner.isPlainType id)) (enter index)
        (t.inheritedLevel source id index claims) (ask (t.scanner.catalog.superclass id))
        (fun _ => rfl) fun above left => ih above (index + 1) left

end Terrain

namespace Scan

open Walk

variable {σ ο : Type} (s : Scan σ ο)

theorem inheritedRound_follows (early : Bool) (source id : TypeId) (index : Nat)
    (claims : Option Claims) :
    Follows s (s.inheritedRound early source id index claims)
      (s.terrain.inheritedRound early source id index claims) :=
  .ite (fun _ => .pure none) fun _ => (Follows.ask _).bind fun _ =>
    .ite (fun _ => .pure none) fun _ => (Follows.enter index).bind fun _ =>
    (s.inheritedLevel_follows source id index claims).bind fun _ =>
    (Follows.ask _).bind fun _ => .pure _

theorem inheritedLoop_follows (early : Bool) (source : TypeId) (fuel : Nat) (id : TypeId)
    (index : Nat) (claims : Option Claims) :
    Follows s (s.inheritedLoop early source fuel id index claims)
      (s.terrain.inheritedLoop early source fuel id index claims) := by
  induction fuel generalizing id index claims with
  | zero => exact .pure ()
  | succ fuel ih =>
    refine .contain _ <| (s.inheritedRound_follows early source id index claims).bind fun next => ?_
    cases next with
    | none => exact .pure ()
    | some next => exact ih next.1 (index + 1) next.2

theorem inheritedRun_follows (early : Bool) (fuel : Nat) (source : TypeId) :
    Follows s (s.inheritedRun early fuel source) (s.terrain.inheritedRun early fuel source) :=
  .contain _ <| (Follows.ask _).bind fun _ => .ite (fun _ => s.element_follows _) fun _ =>
    s.inheritedLoop_follows early source fuel source 0 none

end Scan

end Lineage
