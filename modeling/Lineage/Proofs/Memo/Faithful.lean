import Lineage.Scanner.Memo

namespace Lineage

namespace Scanner

def freshReadable (s : Scanner) (r : Record) : Bool :=
  match AttributeTable.compute s.catalog r.kind true with
  | .ok table =>
    match table.isValid s.catalog r with
    | .ok valid => valid
    | .error _ => false
  | .error _ => false

def freshSlot (s : Scanner) (r : Record) : Except QueryError Slot := do
  let ignorable ← s.isIgnorable r.kind
  if ignorable then pure none
  else pure (if s.freshReadable r then some r else none)

def freshSlots (s : Scanner) (e : Element) : Except QueryError (List Slot) := do
  let records ← s.catalog.declaredRecords e
  let slots ← records.mapM s.freshSlot
  pure (if slots.any Option.isSome then slots else [])

def freshOfKind (s : Scanner) (e : Element) (kind : TypeId) :
    Except QueryError (Option Record) := do
  let slots ← s.freshSlots e
  pure ((slots.filterMap id).find? (·.kind = kind))

def freshQualifies (s : Scanner) (onInterface : Bool) (id : MemberId) :
    Except QueryError Bool := do
  let decl ← s.catalog.memberDecl id
  if !onInterface && decl.isPrivate then pure false
  else
    let plain ← s.isPlainType decl.declaring
    if plain then pure false
    else
      let slots ← s.freshSlots (.member id)
      pure !slots.isEmpty

def keepFresh (test : α → Except QueryError Bool) : List α → Except QueryError (List α)
  | [] => pure []
  | a :: rest => do
    let passes ← test a
    let others ← keepFresh test rest
    pure (if passes then a :: others else others)

def freshQualified (s : Scanner) (id : TypeId) : Except QueryError (List MemberId) := do
  let decl ← s.catalog.typeDecl id
  let members ←
    (if decl.isInterface then s.catalog.publicMembers id else s.catalog.declaredMembers id)
  keepFresh (s.freshQualifies decl.isInterface) members

def freshMembers (s : Scanner) (id : TypeId) : Except QueryError (List MemberId) := do
  if id = Catalog.root then pure []
  else
    let plain ← s.isPlainType id
    if plain then pure [] else s.freshQualified id

end Scanner

/-- Every remembered entry is what would be found anew. -/
structure Memo.Faithful (s : Scanner) (m : Memo) : Prop where
  attributes : ∀ kind table, m.attributes.lookup kind = some table →
    AttributeTable.compute s.catalog kind true = .ok table
  declared : ∀ e slots, m.declared.lookup e = some slots → s.freshSlots e = .ok slots
  members : ∀ id ids, m.members.lookup id = some ids → s.freshQualified id = .ok ids

theorem Memo.Faithful.empty (s : Scanner) : Memo.empty.Faithful s :=
  ⟨by simp [Memo.empty], by simp [Memo.empty], by simp [Memo.empty]⟩

namespace Recall

variable {α β : Type} {s : Scanner}

/-- From whatever is faithfully remembered a computation gives one answer, and what it remembers
    then is faithful again. -/
def Settles (s : Scanner) (t : Recall α) (answer : Except QueryError α) : Prop :=
  ∀ m : Memo, m.Faithful s →
    ∃ after : Memo, after.Faithful s ∧ t.run m = (Trial.ofExcept answer).run after

theorem Settles.pure (a : α) : Settles s (pure a) (.ok a) :=
  fun m faithful => ⟨m, faithful, rfl⟩

theorem Settles.ask (answer : Except QueryError α) : Settles s (ask answer) answer :=
  fun m faithful => ⟨m, faithful, rfl⟩

theorem Settles.bind {t : Recall α} {answer : Except QueryError α} {next : α → Recall β}
    {after : α → Except QueryError β} (first : Settles s t answer)
    (rest : ∀ a, Settles s (next a) (after a)) : Settles s (t >>= next) (answer >>= after) := by
  intro m faithful
  obtain ⟨middle, kept, ran⟩ := first m faithful
  cases answer with
  | error e => exact ⟨middle, kept, Trial.run_bind_of_error ran next⟩
  | ok a =>
    obtain ⟨last, keptLast, ranLast⟩ := rest a middle kept
    exact ⟨last, keptLast, (Trial.run_bind_of_ok ran next).trans ranLast⟩

theorem Settles.ite {c : Prop} [Decidable c] {t u : Recall α} {a b : Except QueryError α}
    (yes : Settles s t a) (no : Settles s u b) :
    Settles s (if c then t else u) (if c then a else b) := by
  split
  · exact yes
  · exact no

theorem Settles.mapM {f : α → Recall β} {g : α → Except QueryError β}
    (each : ∀ a, Settles s (f a) (g a)) (as : List α) : Settles s (as.mapM f) (as.mapM g) := by
  induction as with
  | nil => exact .pure []
  | cons a as ih =>
    rw [List.mapM_cons, List.mapM_cons]
    exact (each a).bind fun _ => ih.bind fun _ => .pure _

theorem Settles.keep {test : α → Recall Bool} {fresh : α → Except QueryError Bool}
    (each : ∀ a, Settles s (test a) (fresh a)) (as : List α) :
    Settles s (keep test as) (Scanner.keepFresh fresh as) := by
  induction as with
  | nil => exact .pure []
  | cons a as ih => exact (each a).bind fun _ => ih.bind fun _ => .pure _

/-- A remembered answer is right, and a new one is worth remembering. -/
theorem Settles.remember {find : Memo → Option α} {keep : α → Memo → Memo} {compute : Recall α}
    {answer : Except QueryError α}
    (found : ∀ m a, m.Faithful s → find m = some a → answer = .ok a)
    (kept : ∀ m a, m.Faithful s → answer = .ok a → (keep a m).Faithful s)
    (computed : Settles s compute answer) : Settles s (remember find keep compute) answer := by
  intro m faithful
  cases known : find m with
  | some a =>
    refine ⟨m, faithful, ?_⟩
    rw [found m a faithful known]
    simp only [Recall.remember, known]
    rfl
  | none =>
    obtain ⟨after, stays, ran⟩ := computed m faithful
    cases answer with
    | error e =>
      refine ⟨after, stays, ?_⟩
      simp only [Recall.remember, known, ran, Trial.run_ofExcept_error]
    | ok a =>
      refine ⟨keep a after, kept after a stays rfl, ?_⟩
      simp only [Recall.remember, known, ran, Trial.run_ofExcept_ok]

end Recall

theorem lookup_cons_right {κ α : Type} [DecidableEq κ] {entries : List (κ × α)}
    {answer : κ → Except QueryError α} {key : κ} {a : α} (new : answer key = .ok a)
    (old : ∀ k b, entries.lookup k = some b → answer k = .ok b) (k : κ) (b : α)
    (found : ((key, a) :: entries).lookup k = some b) : answer k = .ok b := by
  rw [List.lookup_cons] at found
  split at found
  · rename_i same
    rw [beq_iff_eq] at same
    cases found
    rw [same, new]
  · exact old k b found

namespace Scanner

open Recall

variable {s : Scanner}

theorem attributes_settles (kind : TypeId) :
    Settles s (s.attributes kind) (AttributeTable.compute s.catalog kind true) := by
  refine .remember ?_ ?_ (.ask _)
  · intro m table faithful found
    exact faithful.attributes kind table found
  · intro m table faithful new
    exact ⟨lookup_cons_right new faithful.attributes, faithful.declared, faithful.members⟩

theorem isReadable_settles (r : Record) : Settles s (s.isReadable r) (.ok (s.freshReadable r)) := by
  intro m faithful
  obtain ⟨after, kept, ran⟩ := attributes_settles r.kind m faithful
  refine ⟨after, kept, ?_⟩
  simp only [isReadable, freshReadable, ran]
  cases AttributeTable.compute s.catalog r.kind true with
  | error _ => rfl
  | ok table =>
    simp only [Trial.run_ofExcept_ok]
    cases table.isValid s.catalog r <;> rfl

theorem slot_settles (r : Record) : Settles s (s.slot r) (s.freshSlot r) :=
  (Settles.ask _).bind fun _ => .ite (.pure none) ((isReadable_settles r).bind fun _ => .pure _)

theorem declaredSlots_settles (e : Element) : Settles s (s.declaredSlots e) (s.freshSlots e) :=
  (Settles.ask _).bind fun records => (Settles.mapM slot_settles records).bind fun _ => .pure _

theorem declared_settles (e : Element) : Settles s (s.declared e) (s.freshSlots e) := by
  unfold declared
  split
  · refine .remember ?_ ?_ (declaredSlots_settles e)
    · intro m slots faithful found
      exact faithful.declared e slots found
    · intro m slots faithful new
      exact ⟨faithful.attributes, lookup_cons_right new faithful.declared, faithful.members⟩
  · exact declaredSlots_settles e

theorem declaredOfKind_settles (e : Element) (kind : TypeId) :
    Settles s (s.declaredOfKind e kind) (s.freshOfKind e kind) :=
  (declared_settles e).bind fun _ => .pure _

theorem qualifies_settles (onInterface : Bool) (id : MemberId) :
    Settles s (s.qualifies onInterface id) (s.freshQualifies onInterface id) :=
  (Settles.ask _).bind fun _ => .ite (.pure false) <| (Settles.ask _).bind fun _ =>
    .ite (.pure false) <| (declared_settles _).bind fun _ => .pure _

theorem qualifiedMembers_settles (id : TypeId) :
    Settles s (s.qualifiedMembers id) (s.freshQualified id) :=
  (Settles.ask _).bind fun _ => (Settles.ask _).bind fun members =>
    .keep (qualifies_settles _) members

theorem baseMembers_settles (id : TypeId) : Settles s (s.baseMembers id) (s.freshMembers id) := by
  refine .ite (.pure []) <| (Settles.ask _).bind fun _ => .ite (.pure []) ?_
  refine .remember ?_ ?_ (qualifiedMembers_settles id)
  · intro m ids faithful found
    exact faithful.members id ids found
  · intro m ids faithful new
    exact ⟨faithful.attributes, faithful.declared, lookup_cons_right new faithful.members⟩

end Scanner

end Lineage
