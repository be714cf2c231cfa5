import Lineage.Scan.Visitor
import Lineage.Scanner.Memo

namespace Lineage

inductive Event where
  | enter (index : Nat)
  | records (index : Nat) (source : Element) (slots : List Slot)
  /-- A failure the scan goes on after. -/
  | failure (on : Element) (error : QueryError)

structure Progress (σ : Type) where
  memo : Memo
  index : Nat
  state : σ
  log : List Event

inductive Exit (ο : Type) where
  | stopped (answer : ο)
  | failed (error : QueryError)

abbrev Walk (σ ο : Type) := Trial (Exit ο) (Progress σ)

structure Scan (σ ο : Type) where
  scanner : Scanner
  visitor : Visitor σ ο
  rejects : TypeId → Bool

namespace Walk

variable {σ ο : Type}

def ask (answer : Except QueryError α) : Walk σ ο α := .ofExcept (answer.mapError .failed)

def consult (question : Recall α) : Walk σ ο α where
  run p :=
    match question.run p.memo with
    | .ok a memo => .ok a { p with memo := memo }
    | .error e memo => .error (.failed e) { p with memo := memo }

def report (on : Element) (e : QueryError) : Walk σ ο Unit where
  run p := .ok () { p with log := p.log ++ [.failure on e] }

def contain (on : Element) (walk : Walk σ ο Unit) : Walk σ ο Unit where
  run p :=
    match walk.run p with
    | .error (.failed e) p => (report on e).run p
    | done => done

def index : Walk σ ο Nat where
  run p := .ok p.index p

def advance : Walk σ ο Unit where
  run p := .ok () { p with index := p.index + 1 }

def callback (event : Event) (call : σ → Option ο × σ) : Walk σ ο Unit where
  run p :=
    let (answer, state) := call p.state
    let p := { p with state := state, log := p.log ++ [event] }
    match answer with
    | some answer => .error (.stopped answer) p
    | none => .ok () p

end Walk

namespace Scan

variable {σ ο : Type}

def enter (s : Scan σ ο) (index : Nat) : Walk σ ο Unit :=
  Walk.callback (.enter index) (s.visitor.enter index)

def deliver (s : Scan σ ο) (index : Nat) (source : Element) (slots : List Slot) : Walk σ ο Unit :=
  Walk.callback (.records index source slots) (s.visitor.receive index source slots)

def owner (s : Scan σ ο) : Element → Except QueryError (Option TypeId)
  | .type id => pure (some id)
  | .member id => do
    let decl ← s.scanner.catalog.memberDecl id
    pure (some decl.declaring)
  | .parameter _ _ => pure none

def declared (s : Scan σ ο) (e : Element) : Walk σ ο (List Slot) := do
  let owner ← Walk.ask (s.owner e)
  if owner.any s.rejects then pure [] else Walk.consult (s.scanner.declared e)

def element (s : Scan σ ο) (e : Element) : Walk σ ο Unit :=
  Walk.contain e do
    s.enter 0
    let slots ← s.declared e
    s.deliver 0 e slots

end Scan

end Lineage
