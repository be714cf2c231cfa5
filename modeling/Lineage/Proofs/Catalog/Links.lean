import Lineage.Catalog.Supertypes
import Lineage.Proofs.Except
import Mathlib.Data.Finset.Card
import Mathlib.Data.Finset.Range
import Mathlib.Logic.Relation

namespace Lineage

open Relation

namespace TypeDecl

def superLinks (d : TypeDecl) : List TypeId := d.superclass.toList.map (·.target)

def above (d : TypeDecl) : List TypeId := d.interfaces.map (·.target) ++ d.superLinks

def links (d : TypeDecl) : List TypeId :=
  d.interfaces.map (·.target) ++ d.superLinks ++ d.enclosing.toList

end TypeDecl

namespace Catalog

variable {c : Catalog} {links : TypeDecl → List TypeId} {a b id : TypeId}

def Leads (c : Catalog) (links : TypeDecl → List TypeId) (a b : TypeId) : Prop :=
  ∃ decl, c.type? a = some decl ∧ b ∈ links decl

def Reaches (c : Catalog) (links : TypeDecl → List TypeId) : TypeId → TypeId → Prop :=
  ReflTransGen (c.Leads links)

/-- Where every link leads to an issued type, so does every path. -/
theorem issued_of_reaches (closed : ∀ decl ∈ c.types, ∀ b ∈ links decl, b.index < c.typeCount)
    (issued : a.index < c.typeCount) (reached : c.Reaches links a b) : b.index < c.typeCount := by
  cases reached with
  | refl => exact issued
  | tail _ leads =>
    obtain ⟨decl, found, listed⟩ := leads
    exact closed decl (List.mem_of_getElem? found) b listed

def AcyclicFrom (c : Catalog) (links : TypeDecl → List TypeId) (id : TypeId) : Prop :=
  ∀ a, c.Reaches links id a → ¬TransGen (c.Leads links) a a

theorem AcyclicFrom.next (acyclic : c.AcyclicFrom links a) (leads : c.Leads links a b) :
    c.AcyclicFrom links b := by
  intro x reached
  exact acyclic x (reached.head leads)

theorem acyclicFrom_of_height (height : TypeId → Nat)
    (falls : ∀ a b, c.Leads links a b → height b < height a) : c.AcyclicFrom links id := by
  intro x _ cycle
  have lower : ∀ y, TransGen (c.Leads links) x y → height y < height x := by
    intro y path
    induction path with
    | single step => exact falls _ _ step
    | tail _ step ih => exact (falls _ _ step).trans ih
  exact (lower x cycle).false

def Acyclic (c : Catalog) : Prop := ∀ id, ¬TransGen (c.Leads TypeDecl.links) id id

def Falls (c : Catalog) (links : TypeDecl → List TypeId) (height : TypeId → Nat) : Prop :=
  ∀ entry ∈ c.types.zipIdx, ∀ b ∈ links entry.1, height b < height ⟨entry.2⟩

instance (c : Catalog) (links : TypeDecl → List TypeId) (height : TypeId → Nat) :
    Decidable (c.Falls links height) :=
  inferInstanceAs (Decidable (∀ entry ∈ c.types.zipIdx, ∀ b ∈ links entry.1,
    height b < height ⟨entry.2⟩))

theorem Falls.acyclicFrom {height : TypeId → Nat} (falls : c.Falls links height) (id : TypeId) :
    c.AcyclicFrom links id := by
  refine acyclicFrom_of_height height fun a b leads => ?_
  obtain ⟨decl, found, member⟩ := leads
  exact falls (decl, a.index) (List.mk_mem_zipIdx_iff_getElem?.mpr found) b member

theorem Falls.acyclic {height : TypeId → Nat} (falls : c.Falls TypeDecl.links height) :
    c.Acyclic := fun id => falls.acyclicFrom id id .refl

open Classical in
noncomputable def reached (c : Catalog) (links : TypeDecl → List TypeId) (id : TypeId) : Finset Nat :=
  (Finset.range c.typeCount).filter fun i => c.Reaches links id ⟨i⟩

theorem mem_reached {i : Nat} :
    i ∈ c.reached links id ↔ i < c.typeCount ∧ c.Reaches links id ⟨i⟩ := by
  simp only [reached, Finset.mem_filter, Finset.mem_range]

noncomputable def rank (c : Catalog) (links : TypeDecl → List TypeId) (id : TypeId) : Nat :=
  (c.reached links id).card

theorem rank_le_typeCount : c.rank links id ≤ c.typeCount := by
  have issued : c.reached links id ⊆ Finset.range c.typeCount :=
    fun i there => Finset.mem_range.mpr (mem_reached.mp there).1
  have cards := Finset.card_le_card issued
  rw [Finset.card_range] at cards
  exact cards

theorem rank_pos {decl : TypeDecl} (found : c.type? id = some decl) : 0 < c.rank links id := by
  apply Finset.card_pos.mpr
  exact ⟨id.index, mem_reached.mpr ⟨index_lt_of_type? found, .refl⟩⟩

theorem rank_lt (noCycle : ¬TransGen (c.Leads links) a a) (leads : c.Leads links a b) :
    c.rank links b < c.rank links a := by
  obtain ⟨decl, found, member⟩ := leads
  apply Finset.card_lt_card
  -- the source of the link is not reached any more
  rw [Finset.ssubset_iff_of_subset]
  · refine ⟨a.index, mem_reached.mpr ⟨index_lt_of_type? found, .refl⟩, ?_⟩
    intro back
    exact noCycle (TransGen.head' ⟨decl, found, member⟩ (mem_reached.mp back).2)
  · intro i there
    rw [mem_reached] at there ⊢
    exact ⟨there.1, there.2.head ⟨decl, found, member⟩⟩

theorem load_of_present (present : c.isPresent id = true) :
    ∃ decl, c.type? id = some decl ∧ c.load id = .ok decl := by
  unfold isPresent at present
  cases found : c.type? id with
  | none => rw [found] at present; cases present
  | some decl =>
    rw [found] at present
    have stored : decl.present = true := present
    refine ⟨decl, rfl, ?_⟩
    simp only [load, typeDecl, found, Bind.bind, Except.bind, stored, ↓reduceIte]
    rfl

theorem loadTarget_of_present (present : c.isPresent id = true) : c.loadTarget id = .ok id := by
  obtain ⟨decl, _, loaded⟩ := load_of_present present
  simp only [loadTarget, loaded, Bind.bind, Except.bind]
  rfl

theorem present_of_load {decl : TypeDecl} (loaded : c.load id = .ok decl) :
    c.type? id = some decl ∧ c.isPresent id = true := by
  have found := type?_of_typeDecl (typeDecl_of_load loaded)
  refine ⟨found, ?_⟩
  simp only [load, typeDecl, found, Bind.bind, Except.bind] at loaded
  split at loaded
  · rename_i present
    simp only [isPresent, found, Option.any_some, present]
  · cases loaded

theorem present_of_loadTarget (loaded : c.loadTarget a = .ok b) :
    a = b ∧ c.isPresent b = true := by
  obtain ⟨decl, stored, same⟩ := bind_ok loaded
  cases same
  exact ⟨rfl, (present_of_load stored).2⟩

section

variable {decl : TypeDecl} (loaded : c.load id = .ok decl)
include loaded

theorem superclass_of_present (present : ∀ b ∈ decl.superLinks, c.isPresent b = true) :
    c.superclass id = .ok (decl.superclass.map (·.target)) := by
  simp only [superclass, loaded, Bind.bind, Except.bind]
  cases given : decl.superclass with
  | none => rfl
  | some ref =>
    have there := present ref.target (by simp [TypeDecl.superLinks, given])
    simp only [loadTarget_of_present there]
    rfl

theorem interfaces_of_present
    (present : ∀ b ∈ decl.interfaces.map (·.target), c.isPresent b = true) :
    c.interfaces id = .ok (decl.interfaces.map (·.target)) := by
  simp only [interfaces, loaded, Bind.bind, Except.bind]
  generalize decl.interfaces = refs at present
  induction refs with
  | nil => rfl
  | cons ref refs ih =>
    have there := present ref.target (by simp)
    have rest := ih fun b member => present b (by simp [member])
    rw [List.mapM_cons, loadTarget_of_present there, rest]
    rfl

theorem enclosing_of_present (present : ∀ b ∈ decl.enclosing.toList, c.isPresent b = true) :
    c.enclosing id = .ok decl.enclosing := by
  simp only [enclosing, loaded, Bind.bind, Except.bind]
  cases given : decl.enclosing with
  | none => rfl
  | some outer =>
    have there := present outer (by simp [given])
    simp only [loadTarget_of_present there]
    rfl

end

structure Grounded (c : Catalog) (links : TypeDecl → List TypeId) (id : TypeId) : Prop where
  present : ∀ a, c.Reaches links id a → c.isPresent a = true
  acyclic : c.AcyclicFrom links id

theorem Grounded.next (grounded : c.Grounded links a) (leads : c.Leads links a b) :
    c.Grounded links b :=
  ⟨fun x reached => grounded.present x (reached.head leads), grounded.acyclic.next leads⟩

theorem Grounded.reached (grounded : c.Grounded links a) (reached : c.Reaches links a b) :
    c.Grounded links b := by
  induction reached with
  | refl => exact grounded
  | tail _ leads ih => exact ih.next leads

theorem Grounded.rank_lt (grounded : c.Grounded links a) (leads : c.Leads links a b) :
    c.rank links b < c.rank links a :=
  Catalog.rank_lt (grounded.acyclic a .refl) leads

theorem Grounded.here (grounded : c.Grounded links id) : c.isPresent id = true :=
  grounded.present id .refl

/-- A grounded type is there, and so is all that it leads to, which is of a lower rank. -/
theorem Grounded.step (grounded : c.Grounded links id) :
    ∃ decl, c.type? id = some decl ∧ c.load id = .ok decl ∧
      ∀ next ∈ links decl, c.Grounded links next ∧ c.rank links next < c.rank links id := by
  obtain ⟨decl, found, loaded⟩ := load_of_present grounded.here
  refine ⟨decl, found, loaded, fun next linked => ?_⟩
  have leads : c.Leads links id next := ⟨decl, found, linked⟩
  exact ⟨grounded.next leads, grounded.rank_lt leads⟩

theorem Grounded.rank_pos (grounded : c.Grounded links id) : 0 < c.rank links id := by
  obtain ⟨decl, found, _⟩ := load_of_present grounded.here
  exact Catalog.rank_pos found

def Descends (c : Catalog) (links : TypeDecl → List TypeId) (height : TypeId → Nat) : Prop :=
  ∀ entry ∈ c.types.zipIdx, ∀ b ∈ links entry.1, height b < height ⟨entry.2⟩ ∧ c.isPresent b = true

instance (c : Catalog) (links : TypeDecl → List TypeId) (height : TypeId → Nat) :
    Decidable (c.Descends links height) :=
  inferInstanceAs (Decidable (∀ entry ∈ c.types.zipIdx, ∀ b ∈ links entry.1,
    height b < height ⟨entry.2⟩ ∧ c.isPresent b = true))

section

variable {height : TypeId → Nat} (descends : c.Descends links height)
include descends

theorem Descends.leads (leads : c.Leads links a b) : height b < height a ∧ c.isPresent b = true := by
  obtain ⟨decl, found, member⟩ := leads
  exact descends (decl, a.index) (List.mk_mem_zipIdx_iff_getElem?.mpr found) b member

theorem Descends.grounded (present : c.isPresent id = true) : c.Grounded links id := by
  refine ⟨fun a reached => ?_, acyclicFrom_of_height height fun a b leads =>
    (descends.leads leads).1⟩
  cases reached with
  | refl => exact present
  | tail _ last => exact (descends.leads last).2

end

end Catalog

end Lineage
