import Lineage.Proofs.Memo.Faithful
import Lineage.Scan.Run

namespace Lineage

structure Passage (α : Type) where
  answer : Except QueryError α
  index : Nat
  events : List Event

/-- A walk that nobody ends before its time and that remembers nothing. -/
structure Course (α : Type) where
  run : Nat → Passage α

namespace Course

variable {α β : Type}

def andThen (c : Course α) (next : α → Course β) : Course β where
  run i :=
    let first := c.run i
    match first.answer with
    | .ok a =>
      let rest := (next a).run first.index
      ⟨rest.answer, rest.index, first.events ++ rest.events⟩
    | .error e => ⟨.error e, first.index, first.events⟩

instance : Monad Course where
  pure a := ⟨fun i => ⟨.ok a, i, []⟩⟩
  bind := andThen

def ask (answer : Except QueryError α) : Course α := ⟨fun i => ⟨answer, i, []⟩⟩

def happen (event : Event) : Course Unit := ⟨fun i => ⟨.ok (), i, [event]⟩⟩

def report (on : Element) (e : QueryError) : Course Unit := happen (.failure on e)

def contain (on : Element) (c : Course Unit) : Course Unit where
  run i :=
    let whole := c.run i
    match whole.answer with
    | .ok () => whole
    | .error e => ⟨.ok (), whole.index, whole.events ++ [.failure on e]⟩

def index : Course Nat := ⟨fun i => ⟨.ok i, i, []⟩⟩

def advance : Course Unit := ⟨fun i => ⟨.ok (), i + 1, []⟩⟩

def enter (index : Nat) : Course Unit := happen (.enter index)

def deliver (index : Nat) (source : Element) (slots : List Slot) : Course Unit :=
  happen (.records index source slots)

theorem run_pure (a : α) (i : Nat) : (pure a : Course α).run i = ⟨.ok a, i, []⟩ := rfl

theorem ask_ok (a : α) (next : α → Course β) : (ask (.ok a) >>= next) = next a := rfl

theorem ask_error (e : QueryError) (next : α → Course β) :
    (ask (.error e) >>= next) = ask (.error e) := rfl

theorem run_bind_of_ok {c : Course α} {i : Nat} {a : α} (h : (c.run i).answer = .ok a)
    (next : α → Course β) :
    (c >>= next).run i =
      let rest := (next a).run (c.run i).index
      ⟨rest.answer, rest.index, (c.run i).events ++ rest.events⟩ := by
  show (c.andThen next).run i = _
  simp only [andThen, h]

theorem run_bind_of_error {c : Course α} {i : Nat} {e : QueryError}
    (h : (c.run i).answer = .error e) (next : α → Course β) :
    (c >>= next).run i = ⟨.error e, (c.run i).index, (c.run i).events⟩ := by
  show (c.andThen next).run i = _
  simp only [andThen, h]

theorem ext {c d : Course α} (h : ∀ i, c.run i = d.run i) : c = d := by
  cases c
  cases d
  congr
  funext i
  exact h i

instance : LawfulMonad Course := LawfulMonad.mk' _
  (by
    intro α c
    refine ext fun i => ?_
    show (c >>= fun a => pure a).run i = _
    cases ended : (c.run i).answer with
    | error e => rw [run_bind_of_error ended, ← ended]
    | ok a =>
      rw [run_bind_of_ok ended]
      simp only [run_pure, List.append_nil, ← ended])
  (by intros; rfl)
  (by
    intro α β γ c f g
    refine ext fun i => ?_
    cases ended : (c.run i).answer with
    | error e =>
      have first := run_bind_of_error ended f
      rw [run_bind_of_error (congrArg Passage.answer first), first, run_bind_of_error ended]
    | ok a =>
      have first := run_bind_of_ok ended f
      rw [run_bind_of_ok ended]
      cases later : ((f a).run (c.run i).index).answer with
      | error e =>
        rw [run_bind_of_error ((congrArg Passage.answer first).trans later), first,
          run_bind_of_error later]
      | ok b =>
        rw [run_bind_of_ok ((congrArg Passage.answer first).trans later), first,
          run_bind_of_ok later]
        simp only [List.append_assoc])

theorem run_contain_of_ok {c : Course Unit} {i : Nat} {u : Unit} (h : (c.run i).answer = .ok u)
    (on : Element) : (c.contain on).run i = c.run i := by
  simp only [contain, h]

theorem run_contain_of_error {c : Course Unit} {i : Nat} {e : QueryError}
    (h : (c.run i).answer = .error e) (on : Element) :
    (c.contain on).run i = ⟨.ok (), (c.run i).index, (c.run i).events ++ [.failure on e]⟩ := by
  simp only [contain, h]

end Course

/-- What a scan walks on, whoever watches it. -/
structure Terrain where
  scanner : Scanner
  rejects : TypeId → Bool

def Scan.terrain {σ ο : Type} (s : Scan σ ο) : Terrain := ⟨s.scanner, s.rejects⟩

namespace Terrain

open Course

def owner (t : Terrain) : Element → Except QueryError (Option TypeId)
  | .type id => pure (some id)
  | .member id => do
    let decl ← t.scanner.catalog.memberDecl id
    pure (some decl.declaring)
  | .parameter _ _ => pure none

def declared (t : Terrain) (e : Element) : Course (List Slot) := do
  let owner ← ask (t.owner e)
  if owner.any t.rejects then pure [] else ask (t.scanner.freshSlots e)

def element (t : Terrain) (e : Element) : Course Unit :=
  contain e do
    enter 0
    let slots ← t.declared e
    deliver 0 e slots

def claimsFor (t : Terrain) (source : TypeId) (declared : List Slot) :
    Option Scan.Claims → Course (Option Scan.Claims)
  | some claims => pure (some claims)
  | none =>
    if declared.isEmpty then pure none
    else do
      let visible ← ask (t.scanner.catalog.visibleRecords source)
      pure (some (.ofRecords visible))

def inheritedLevel (t : Terrain) (source id : TypeId) (index : Nat)
    (claims : Option Scan.Claims) : Course (Option Scan.Claims) := do
  if t.rejects id then pure claims
  else
    let declared ← ask (t.scanner.freshSlots (.type id))
    match ← t.claimsFor source declared claims with
    | some claims =>
      let (shown, claims) := claims.claimAll declared
      deliver index (.type id) shown
      pure (some claims)
    | none =>
      deliver index (.type id) declared
      pure none

def properSuperclass (t : Terrain) (id : TypeId) : Course (Option TypeId) := do
  let above ← ask (t.scanner.catalog.superclass id)
  pure (above.filter (· != Catalog.root))

def inheritedFrom (t : Terrain) (source : TypeId) :
    Nat → TypeId → Nat → Option Scan.Claims → Course Unit
  | 0, _, _, _ => pure ()
  | fuel + 1, id, index, claims =>
    contain (.type id) do
      if id = Catalog.root || claims.any (·.remaining = 0) then pure ()
      else
        let plain ← ask (t.scanner.isPlainType id)
        if plain then pure ()
        else
          enter index
          let claims ← t.inheritedLevel source id index claims
          match ← ask (t.scanner.catalog.superclass id) with
          | some above => t.inheritedFrom source fuel above (index + 1) claims
          | none => pure ()

def inheritedType (t : Terrain) (fuel : Nat) (source : TypeId) : Course Unit :=
  contain (.type source) do
    let alone ← ask (t.scanner.catalog.isWithoutHierarchy .inherited (.type source))
    if alone then t.element (.type source) else t.inheritedFrom source fuel source 0 none

def sideways (t : Terrain) (interfaces : Bool) (walk : TypeId → Course Unit) (id : TypeId) :
    Course Unit :=
  if interfaces then do
    let above ← ask (t.scanner.catalog.interfaces id)
    above.forM walk
  else pure ()

def upward (t : Terrain) (walk : TypeId → Course Unit) (id : TypeId) : Course Unit := do
  match ← t.properSuperclass id with
  | some above => walk above
  | none => pure ()

def outward (t : Terrain) (enclosing : Bool) (walk : TypeId → Course Unit) (id : TypeId) :
    Course Unit :=
  if enclosing then
    match t.scanner.catalog.enclosing id with
    | .ok (some outer) => walk outer
    | .ok none => pure ()
    | .error e => report (.type id) e
  else pure ()

def typeFrom (t : Terrain) (reach : Scan.Reach) : Nat → TypeId → Course Unit
  | 0, _ => pure ()
  | fuel + 1, id =>
    contain (.type id) do
      enter (← index)
      let plain ← ask (t.scanner.isPlainType id)
      if plain then pure ()
      else
        let slots ← t.declared (.type id)
        deliver (← index) (.type id) slots
        advance
        t.sideways reach.interfaces (t.typeFrom reach fuel) id
        t.upward (t.typeFrom reach fuel) id
        t.outward reach.enclosing (t.typeFrom reach fuel) id

def typeWalk (t : Terrain) (fuel : Nat) (id : TypeId) : Strategy → Course Unit
  | .direct => t.element (.type id)
  | .inherited => t.inheritedType fuel id
  | .superclass => t.typeFrom ⟨false, false⟩ fuel id
  | .hierarchy => t.typeFrom ⟨true, false⟩ fuel id
  | .enclosing => t.typeFrom ⟨true, true⟩ fuel id

def memberRecords (t : Terrain) (index : Nat) (id : MemberId) : Course Unit := do
  let own ← t.declared (.member id)
  deliver index (.member id) own
  let target ← ask (t.scanner.catalog.bridged id)
  if target = id then pure ()
  else
    let others ← t.declared (.member target)
    deliver index (.member id) (Scan.withoutShown own others)

def candidates (t : Terrain) (id : TypeId) : Course (List MemberId) :=
  if t.rejects id then pure [] else ask (t.scanner.freshMembers id)

def showOverridden (t : Terrain) (member : MemberId) (called : Bool) :
    List MemberId → Course Bool
  | [] => pure called
  | candidate :: rest => do
    let overridden ← ask (t.scanner.catalog.overrides member candidate)
    if overridden then
      t.memberRecords (← index) candidate
      t.showOverridden member true rest
    else t.showOverridden member called rest

def memberLevel (t : Terrain) (member : MemberId) (declaring id : TypeId) : Course Bool := do
  if id = declaring then
    t.memberRecords (← index) member
    pure true
  else
    let candidates ← t.candidates id
    t.showOverridden member false candidates

def memberFrom (t : Terrain) (interfaces : Bool) (member : MemberId) :
    Nat → TypeId → Course Unit
  | 0, _ => pure ()
  | fuel + 1, id =>
    contain (.member member) do
      enter (← index)
      let plain ← ask (t.scanner.isPlainType id)
      if plain then pure ()
      else
        let decl ← ask (t.scanner.catalog.memberDecl member)
        let called ← t.memberLevel member decl.declaring id
        if decl.isPrivate then pure ()
        else
          if called then advance else pure ()
          t.sideways interfaces (t.memberFrom interfaces member fuel) id
          t.upward (t.memberFrom interfaces member fuel) id

def memberAlone (t : Terrain) (id : MemberId) : Course Unit :=
  contain (.member id) do
    enter 0
    t.memberRecords 0 id

def memberUpward (t : Terrain) (interfaces : Bool) (fuel : Nat) (id : MemberId) : Course Unit :=
  match t.scanner.catalog.memberDecl id with
  | .ok decl => t.memberFrom interfaces id fuel decl.declaring
  | .error e => report (.member id) e

def memberWalk (t : Terrain) (fuel : Nat) (id : MemberId) : Strategy → Course Unit
  | .direct | .inherited => t.memberAlone id
  | .superclass => t.memberUpward false fuel id
  | .hierarchy | .enclosing => t.memberUpward true fuel id

def course (t : Terrain) (fuel : Nat) (strategy : Strategy) : Element → Course Unit
  | .type id => t.typeWalk fuel id strategy
  | .member id => t.memberWalk fuel id strategy
  | .parameter owner index => t.element (.parameter owner index)

def events (t : Terrain) (fuel : Nat) (strategy : Strategy) (source : Element) : List Event :=
  ((t.course fuel strategy source).run 0).events

end Terrain

end Lineage
