import Lineage.Scanner.Basic

namespace Lineage

/-- Receives what a scan finds, level by level. A callback that gives an answer ends the scan, and
    the answer goes to `finish`. -/
structure Processor (σ ο : Type) where
  start : σ
  /-- A level is entered; its records are not known yet. -/
  enter : Nat → σ → Option ο × σ
  /-- The records of an element at a level. -/
  receive : Nat → Element → List Slot → σ → Option ο × σ
  finish : Option ο → σ → Option ο

/-- A processor, and how many times more than once a walk may pass a type on one path before the
    processor ends it. Only links that form a cycle lead a walk back to a type. -/
structure Visitor (σ ο : Type) extends Processor σ ο where
  laps : Nat := 0

structure Level where
  index : Nat
  source : Element
  records : List Record

structure Found where
  index : Nat
  source : Element
  record : Record

namespace Visitor

def levels : Visitor (List Level) (List Level) where
  start := []
  enter _ collected := (none, collected)
  receive index source slots collected :=
    let records := slots.filterMap id
    (none, if records.isEmpty then collected else collected ++ [⟨index, source, records⟩])
  finish _ collected := some collected

def firstOfKind (kind : TypeId) : Visitor Unit Found where
  start := ()
  enter _ _ := (none, ())
  receive index source slots _ :=
    (((slots.filterMap id).find? (·.kind = kind)).map (⟨index, source, ·⟩), ())
  finish found _ := found

end Visitor

end Lineage
