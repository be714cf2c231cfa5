import Lineage.Scan.Members

namespace Lineage

structure Outcome (ο : Type) where
  answer : Option ο
  log : List Event
  memo : Memo

namespace Scan

variable {σ ο : Type}

def walk (s : Scan σ ο) (fuel : Nat) (strategy : Strategy) : Element → Walk σ ο Unit
  | .type id => s.typeWalk fuel id strategy
  | .member id => s.memberWalk fuel id strategy
  | .parameter owner index => s.element (.parameter owner index)

def begin (s : Scan σ ο) (memo : Memo) : Progress σ := ⟨memo, 0, s.visitor.start, []⟩

def conclude (s : Scan σ ο) : EStateM.Result (Exit ο) (Progress σ) Unit → Outcome ο
  | .ok _ p => ⟨s.visitor.finish none p.state, p.log, p.memo⟩
  | .error (.stopped answer) p => ⟨s.visitor.finish (some answer) p.state, p.log, p.memo⟩
  | .error (.failed _) p => ⟨s.visitor.finish none p.state, p.log, p.memo⟩

def runWithin (s : Scan σ ο) (fuel : Nat) (strategy : Strategy) (source : Element) (memo : Memo) :
    Outcome ο :=
  s.conclude ((s.walk fuel strategy source).run (s.begin memo))

/-- No path that passes each type as often as the visitor lets it is longer. -/
def depth (s : Scan σ ο) : Nat := s.scanner.catalog.typeCount * (s.visitor.laps + 1)

/-- A scan of an element. Where links form no cycle a path passes each type once, and where they do a
    walk has no end but the visitor's, so what lies deeper is never reached. -/
def run (s : Scan σ ο) (strategy : Strategy) (source : Element) (memo : Memo) : Outcome ο :=
  s.runWithin s.depth strategy source memo

end Scan

namespace Event

def failures (log : List Event) : List (Element × QueryError) :=
  log.filterMap fun
    | .failure on e => some (on, e)
    | _ => none

end Event

namespace Scanner

def isBridge (s : Scanner) : Element → Except QueryError Bool
  | .member id => do
    let decl ← s.catalog.memberDecl id
    pure decl.isBridge
  | .type _ | .parameter _ _ => pure false

def findKnownEmpty (s : Scanner) (strategy : Strategy) (source : Element) : Recall Bool := do
  let plain ← Recall.ask (s.isPlain source)
  if plain then pure true
  else
    let alone ← Recall.ask
      (if strategy = .direct then pure true
       else s.catalog.isWithoutHierarchy strategy source)
    if alone then
      let bridge ← Recall.ask (s.isBridge source)
      if bridge then pure false
      else
        let slots ← s.declared source
        pure slots.isEmpty
    else pure false

def isKnownEmpty (s : Scanner) (strategy : Strategy) (source : Element) (memo : Memo) :
    Outcome Bool :=
  match (s.findKnownEmpty strategy source).run memo with
  | .ok empty memo => ⟨some empty, [], memo⟩
  | .error e memo => ⟨some false, [.failure source e], memo⟩

end Scanner

end Lineage
