import Lineage.Proofs.Scan.Follow

namespace Lineage

/-- What can be asked of a scanner. A copy of declared records is the caller's own, so it is as good
    as the records themselves. -/
inductive Operation : Type 1 where
  | scan {σ ο : Type} (visitor : Visitor σ ο) (rejects : TypeId → Bool) (strategy : Strategy)
    (source : Element)
  | knownEmpty (strategy : Strategy) (source : Element)
  | declared (e : Element)
  | declaredCopy (e : Element)
  | declaredOfKind (e : Element) (kind : TypeId)
  | baseMembers (id : TypeId)
  | attributes (kind : TypeId)
  | clear

def Operation.Answer : Operation → Type
  | @scan _ ο _ _ _ _ => Option ο × List Event
  | knownEmpty _ _ => Option Bool × List Event
  | declared _ | declaredCopy _ => Except QueryError (List Slot)
  | declaredOfKind _ _ => Except QueryError (Option Record)
  | baseMembers _ => Except QueryError (List MemberId)
  | attributes _ => Except QueryError AttributeTable
  | clear => Unit

def Outcome.seen {ο : Type} (o : Outcome ο) : (Option ο × List Event) × Memo :=
  ((o.answer, o.log), o.memo)

namespace Recall

variable {α : Type}

def answered (t : Recall α) (m : Memo) : Except QueryError α × Memo :=
  match t.run m with
  | .ok a after => (.ok a, after)
  | .error e after => (.error e, after)

theorem Settles.answered {s : Scanner} {t : Recall α} {answer : Except QueryError α}
    (settles : Settles s t answer) {m : Memo} (faithful : m.Faithful s) :
    (t.answered m).1 = answer ∧ (t.answered m).2.Faithful s := by
  obtain ⟨after, kept, ran⟩ := settles m faithful
  unfold Recall.answered
  rw [ran]
  cases answer with
  | ok a => exact ⟨rfl, kept⟩
  | error e => exact ⟨rfl, kept⟩

end Recall

namespace Scanner

def freshKnownEmpty (s : Scanner) (strategy : Strategy) (source : Element) :
    Except QueryError Bool := do
  let plain ← s.isPlain source
  if plain then pure true
  else
    let alone ←
      (if strategy = .direct then pure true else s.catalog.isWithoutHierarchy strategy source)
    if alone then
      let bridge ← s.isBridge source
      if bridge then pure false
      else
        let slots ← s.freshSlots source
        pure slots.isEmpty
    else pure false

theorem findKnownEmpty_settles (s : Scanner) (strategy : Strategy) (source : Element) :
    Recall.Settles s (s.findKnownEmpty strategy source) (s.freshKnownEmpty strategy source) :=
  (Recall.Settles.ask _).bind fun _ => .ite (.pure true) <| (Recall.Settles.ask _).bind fun _ =>
    .ite ((Recall.Settles.ask _).bind fun _ => .ite (.pure false) <|
      (s.declared_settles source).bind fun _ => .pure _) (.pure false)

def perform (s : Scanner) : (op : Operation) → Memo → op.Answer × Memo
  | .scan visitor rejects strategy source, m =>
    (Scan.run ⟨s, visitor, rejects⟩ strategy source m).seen
  | .knownEmpty strategy source, m => (s.isKnownEmpty strategy source m).seen
  | .declared e, m | .declaredCopy e, m => (s.declared e).answered m
  | .declaredOfKind e kind, m => (s.declaredOfKind e kind).answered m
  | .baseMembers id, m => (s.baseMembers id).answered m
  | .attributes kind, m => (s.attributes kind).answered m
  | .clear, _ => ((), .empty)

def performAll (s : Scanner) : List Operation → Memo → List ((op : Operation) × op.Answer)
  | [], _ => []
  | op :: rest, m => ⟨op, (s.perform op m).1⟩ :: s.performAll rest (s.perform op m).2

def memoAfter (s : Scanner) (history : List Operation) : Memo :=
  history.foldl (fun m op => (s.perform op m).2) .empty

theorem isKnownEmpty_seen (s : Scanner) (strategy : Strategy) (source : Element) {m : Memo}
    (faithful : m.Faithful s) :
    (s.isKnownEmpty strategy source m).seen.1 =
        (match s.freshKnownEmpty strategy source with
          | .ok empty => (some empty, [])
          | .error e => (some false, [.failure source e])) ∧
      (s.isKnownEmpty strategy source m).seen.2.Faithful s := by
  obtain ⟨after, kept, ran⟩ := s.findKnownEmpty_settles strategy source m faithful
  unfold isKnownEmpty
  rw [ran]
  cases s.freshKnownEmpty strategy source with
  | ok empty => exact ⟨rfl, kept⟩
  | error e => exact ⟨rfl, kept⟩

theorem perform_of_faithful (s : Scanner) (op : Operation) :
    ∃ answer : op.Answer, ∀ m : Memo, m.Faithful s →
      (s.perform op m).1 = answer ∧ (s.perform op m).2.Faithful s := by
  cases op with
  | scan visitor rejects strategy source =>
    let scan : Scan _ _ := ⟨s, visitor, rejects⟩
    let watched := scan.watched strategy source
    refine ⟨(visitor.finish watched.answer watched.state, watched.seen), fun m faithful => ?_⟩
    obtain ⟨after, kept, ran⟩ := scan.run_eq strategy source faithful
    show (scan.run strategy source m).seen.1 = _ ∧ (scan.run strategy source m).seen.2.Faithful s
    rw [ran]
    exact ⟨rfl, kept⟩
  | knownEmpty strategy source =>
    exact ⟨_, fun m faithful => s.isKnownEmpty_seen strategy source faithful⟩
  | declared e | declaredCopy e =>
    exact ⟨_, fun m faithful => (s.declared_settles e).answered faithful⟩
  | declaredOfKind e kind =>
    exact ⟨_, fun m faithful => (s.declaredOfKind_settles e kind).answered faithful⟩
  | baseMembers id => exact ⟨_, fun m faithful => (s.baseMembers_settles id).answered faithful⟩
  | attributes kind => exact ⟨_, fun m faithful => (s.attributes_settles kind).answered faithful⟩
  | clear => exact ⟨(), fun m _ => ⟨rfl, .empty s⟩⟩

theorem perform_keeps (s : Scanner) (op : Operation) {m : Memo} (faithful : m.Faithful s) :
    (s.perform op m).2.Faithful s := by
  obtain ⟨answer, same⟩ := s.perform_of_faithful op
  exact (same m faithful).2

theorem perform_answer (s : Scanner) (op : Operation) {m : Memo} (faithful : m.Faithful s) :
    (s.perform op m).1 = (s.perform op .empty).1 := by
  obtain ⟨answer, same⟩ := s.perform_of_faithful op
  rw [(same m faithful).1, (same .empty (.empty s)).1]

theorem memoAfter_faithful (s : Scanner) (history : List Operation) :
    (s.memoAfter history).Faithful s := by
  have keeps (m : Memo) (faithful : m.Faithful s) :
      (history.foldl (fun m op => (s.perform op m).2) m).Faithful s := by
    induction history generalizing m with
    | nil => exact faithful
    | cons op rest ih => exact ih _ (s.perform_keeps op faithful)
  exact keeps .empty (.empty s)

theorem performAll_of_faithful (s : Scanner) (ops : List Operation) {m : Memo}
    (faithful : m.Faithful s) :
    s.performAll ops m = ops.map fun op => ⟨op, (s.perform op .empty).1⟩ := by
  induction ops generalizing m with
  | nil => rfl
  | cons op rest ih =>
    rw [performAll, List.map_cons, s.perform_answer op faithful, ih (s.perform_keeps op faithful)]

/-- Whatever was asked before and in whatever order, every operation answers as on a new scanner. -/
theorem answers_independent_of_memory (s : Scanner) (ops : List Operation) :
    s.performAll ops .empty = ops.map fun op => ⟨op, (s.perform op .empty).1⟩ :=
  s.performAll_of_faithful ops (.empty s)

end Scanner

end Lineage
