import Lineage.Proofs.Scan.Deliveries

namespace Lineage

variable {id : TypeId} {decl : TypeDecl} {found : TypeId → List TypeId}

namespace Course

variable {P : Course Unit → List TypeId → Prop} {walk : TypeId → Course Unit}

structure Composes (P : Course Unit → List TypeId → Prop) : Prop where
  none : P (pure ()) []
  append : ∀ {c d : Course Unit} {types more : List TypeId},
    P c types → P d more → P (c >>= fun _ => d) (types ++ more)

theorem Composes.forM (composes : Composes P) {ids : List TypeId}
    (each : ∀ id ∈ ids, P (walk id) (found id)) : P (ids.forM walk) (ids.flatMap found) := by
  induction ids with
  | nil => exact composes.none
  | cons id rest ih =>
    rw [List.flatMap_cons]
    exact composes.append (each id (by simp)) (ih fun other member => each other (by simp [member]))

section

variable {t : Terrain} (composes : Composes P) (loaded : t.scanner.catalog.load id = .ok decl)
include composes loaded

theorem Composes.sideways (interfaces : Bool)
    (present : ∀ next ∈ decl.interfaces.map (·.target), t.scanner.catalog.isPresent next = true)
    (each : ∀ next ∈ if interfaces then decl.interfaces.map (·.target) else [],
      P (walk next) (found next)) :
    P (t.sideways interfaces walk id)
      ((if interfaces then decl.interfaces.map (·.target) else []).flatMap found) := by
  unfold Terrain.sideways
  cases interfaces with
  | false => exact composes.none
  | true =>
    rw [if_pos rfl, if_pos rfl, Catalog.interfaces_of_present loaded present]
    exact composes.forM each

theorem Composes.upward
    (present : ∀ next ∈ decl.superLinks, t.scanner.catalog.isPresent next = true)
    (each : ∀ next ∈ decl.superLinks.filter (· != Catalog.root), P (walk next) (found next)) :
    P (t.upward walk id) ((decl.superLinks.filter (· != Catalog.root)).flatMap found) := by
  have links : decl.superLinks.filter (· != Catalog.root) =
      ((decl.superclass.map (·.target)).filter (· != Catalog.root)).toList := by
    rw [TypeDecl.superLinks, ← Option.toList_map, Option.toList_filter]
  rw [links] at each ⊢
  unfold Terrain.upward Terrain.properSuperclass
  rw [Catalog.superclass_of_present loaded present, ask_ok, pure_bind]
  cases above : (decl.superclass.map (·.target)).filter (· != Catalog.root) with
  | none => exact composes.none
  | some next =>
    rw [Option.toList_some, List.flatMap_singleton]
    exact each next (by rw [above]; exact List.mem_singleton_self next)

theorem Composes.outward (enclosing : Bool)
    (present : ∀ next ∈ decl.enclosing.toList, t.scanner.catalog.isPresent next = true)
    (each : ∀ next ∈ if enclosing then decl.enclosing.toList else [], P (walk next) (found next)) :
    P (t.outward enclosing walk id)
      ((if enclosing then decl.enclosing.toList else []).flatMap found) := by
  unfold Terrain.outward
  cases enclosing with
  | false => exact composes.none
  | true =>
    rw [if_pos rfl, if_pos rfl, Catalog.enclosing_of_present loaded present]
    generalize decl.enclosing = outer at each
    cases outer with
    | none => exact composes.none
    | some outer =>
      have there := each outer (by simp)
      rw [Option.toList_some, List.flatMap_singleton]
      exact there

end

end Course

theorem Terrain.isPlainType_asked {α : Type} {t : Terrain}
    (known : t.scanner.catalog.type? id = some decl) (rest : Bool → Course α) :
    (Course.ask (t.scanner.isPlainType id) >>= rest) =
      rest (t.scanner.settings.isPlainName decl.name) := by
  rw [Scanner.isPlainType_of_found known]
  rfl

end Lineage
