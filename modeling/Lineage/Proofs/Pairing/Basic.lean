import Lineage.Catalog.Generics
import Lineage.Proofs.Lists
import Lineage.Scan.Walk

namespace Lineage

/-- Two computations that agree: both give results, which are related, or both fail, with related
    errors. -/
inductive Agree {ε δ α β : Type} (errors : ε → δ → Prop) (results : α → β → Prop) :
    Except ε α → Except δ β → Prop
  | ok {a : α} {b : β} : results a b → Agree errors results (.ok a) (.ok b)
  | error {e : ε} {f : δ} : errors e f → Agree errors results (.error e) (.error f)

namespace Agree

variable {ε δ α β α' β' : Type} {E : ε → δ → Prop} {R : α → β → Prop} {S : α' → β' → Prop}
  {x : Except ε α} {y : Except δ β}

theorem pure {a : α} {b : β} (related : R a b) : Agree E R (pure a) (pure b) := .ok related

theorem bind {f : α → Except ε α'} {g : β → Except δ β'} (first : Agree E R x y)
    (next : ∀ a b, x = .ok a → y = .ok b → R a b → Agree E S (f a) (g b)) :
    Agree E S (x >>= f) (y >>= g) := by
  cases first with
  | error related => exact .error related
  | ok related => exact next _ _ rfl rfl related

theorem map {f : α → α'} {g : β → β'} (first : Agree E R x y)
    (next : ∀ a b, R a b → S (f a) (g b)) : Agree E S (f <$> x) (g <$> y) := by
  cases first with
  | error related => exact .error related
  | ok related => exact .ok (next _ _ related)

theorem ite {p q : Prop} [Decidable p] [Decidable q] {x' : Except ε α} {y' : Except δ β}
    (same : p ↔ q) (yes : p → Agree E R x y) (no : ¬p → Agree E R x' y') :
    Agree E R (if p then x else x') (if q then y else y') := by
  by_cases holds : p
  · rw [if_pos holds, if_pos (same.mp holds)]
    exact yes holds
  · rw [if_neg holds, if_neg (mt same.mpr holds)]
    exact no holds

theorem mapM {f : α → Except ε α'} {g : β → Except δ β'} {as : List α} {bs : List β}
    (inputs : List.Forall₂ R as bs) (each : ∀ a b, R a b → Agree E S (f a) (g b)) :
    Agree E (List.Forall₂ S) (as.mapM f) (bs.mapM g) := by
  induction inputs with
  | nil => exact .ok .nil
  | cons head _ ih =>
    rw [List.mapM_cons, List.mapM_cons]
    apply (each _ _ head).bind
    intro first first' _ _ related
    apply ih.bind
    intro rest rest' _ _ others
    exact .ok (.cons related others)

theorem mapM_same {f : β → Except ε α'} {g : β → Except δ β'} (bs : List β)
    (each : ∀ b, Agree E S (f b) (g b)) : Agree E (List.Forall₂ S) (bs.mapM f) (bs.mapM g) := by
  have itself : List.Forall₂ Eq bs bs := List.forall₂_same.mpr fun _ _ => rfl
  apply mapM itself
  rintro b _ rfl
  exact each b

theorem optionMapM_same {f : β → Except ε α'} {g : β → Except δ β'} (b : Option β)
    (each : ∀ b, Agree E S (f b) (g b)) : Agree E (Option.Rel S) (b.mapM f) (b.mapM g) := by
  cases b with
  | none => exact .ok .none
  | some b => exact (each b).map fun _ _ => .some

theorem forM {f : α → Except ε PUnit} {g : β → Except δ PUnit} {as : List α} {bs : List β}
    (inputs : List.Forall₂ R as bs) (each : ∀ a b, R a b → Agree E Eq (f a) (g b)) :
    Agree E Eq (as.forM f) (bs.forM g) := by
  induction inputs with
  | nil => exact .ok rfl
  | cons head _ ih => exact (each _ _ head).bind fun _ _ _ _ _ => ih

theorem imp {F : ε → δ → Prop} (agree : Agree E R x y) (more : ∀ e f, E e f → F e f) :
    Agree F R x y := by
  cases agree with
  | ok related => exact .ok related
  | error related => exact .error (more _ _ related)

end Agree

/-- Which ids of two catalogs, which variables of their types and which failures stand for the same
    thing. Nothing stands for two things. -/
structure Pairing where
  type : TypeId → TypeId → Prop
  member : MemberId → MemberId → Prop
  /-- The parameters that may be asked for. -/
  parameter : MemberId → Nat → Prop
  /-- Variables by the type that declares them in the first catalog. -/
  var : TypeId → String → String → Prop
  error : QueryError → QueryError → Prop
  type_unique : Relator.BiUnique type
  member_unique : Relator.BiUnique member
  var_unique : ∀ owner, Relator.BiUnique (var owner)

namespace Pairing

def arg (p : Pairing) (owner : TypeId) : TypeArg → TypeArg → Prop
  | .concrete a, .concrete b => p.type a b
  | .var a, .var b => p.var owner a b
  | _, _ => False

structure Ref (p : Pairing) (owner : TypeId) (r s : SuperRef) : Prop where
  target : p.type r.target s.target
  args : List.Forall₂ (p.arg owner) r.args s.args

structure Param (p : Pairing) (owner : TypeId) (x y : TypeParam) : Prop where
  name : p.var owner x.name y.name
  bound : Option.Rel p.type x.bound y.bound

structure Decl (p : Pairing) (owner : TypeId) (d e : TypeDecl) : Prop where
  name : d.name = e.name
  flavor : d.flavor = e.flavor
  params : List.Forall₂ (p.Param owner) d.params e.params
  superclass : Option.Rel (p.Ref owner) d.superclass e.superclass
  interfaces : List.Forall₂ (p.Ref owner) d.interfaces e.interfaces
  enclosing : Option.Rel p.type d.enclosing e.enclosing
  inherited : d.inherited = e.inherited
  present : d.present = e.present

inductive Returns (p : Pairing) : ValueType → ValueType → Prop
  | void : Returns p .void .void
  | bool : Returns p .bool .bool
  | int : Returns p .int .int
  | float : Returns p .float .float
  | string : Returns p .string .string
  | type : Returns p .type .type
  | enum {a b : TypeId} : p.type a b → Returns p (.enum a) (.enum b)
  | record {a b : TypeId} : p.type a b → Returns p (.record a) (.record b)
  | array {x y : ValueType} : Returns p x y → Returns p (.array x) (.array y)

mutual

inductive Val (p : Pairing) : Value → Value → Prop
  | bool (b : Bool) : Val p (.bool b) (.bool b)
  | int (i : Int) : Val p (.int i) (.int i)
  | float (x : Float) : Val p (.float x) (.float x)
  | string (s : String) : Val p (.string s) (.string s)
  | type {a b : TypeId} : p.type a b → Val p (.type a) (.type b)
  | enum {a b : TypeId} (constant : String) : p.type a b → Val p (.enum a constant) (.enum b constant)
  | record {k l : TypeId} {vs ws : List (String × Value)} : p.type k l →
    List.Forall₂ (Entry p) vs ws → Val p (.record ⟨k, vs⟩) (.record ⟨l, ws⟩)
  | array {vs ws : List Value} : List.Forall₂ (Val p) vs ws → Val p (.array vs) (.array ws)

inductive Entry (p : Pairing) : String × Value → String × Value → Prop
  | named (name : String) {v w : Value} : Val p v w → Entry p (name, v) (name, w)

end

def record (p : Pairing) (r s : Record) : Prop := p.Val (.record r) (.record s)

section

variable {p : Pairing} {M : Value → Value → Prop} (bool : ∀ b, M (.bool b) (.bool b))
  (int : ∀ i, M (.int i) (.int i)) (float : ∀ x, M (.float x) (.float x))
  (string : ∀ s, M (.string s) (.string s)) (type : ∀ a b, p.type a b → M (.type a) (.type b))
  (enum : ∀ a b constant, p.type a b → M (.enum a constant) (.enum b constant))
  (record : ∀ k l vs ws, p.type k l → List.Forall₂ (fun x y => x.1 = y.1 ∧ M x.2 y.2) vs ws →
    M (.record ⟨k, vs⟩) (.record ⟨l, ws⟩))
  (array : ∀ vs ws, List.Forall₂ M vs ws → M (.array vs) (.array ws))
include bool int float string type enum record array

/-- Induction on values that are alike, with what holds of their parts given as lists. -/
theorem Val.induct {v w : Value} (alike : p.Val v w) : M v w := by
  let part (x y : String × Value) : Prop := x.1 = y.1 ∧ M x.2 y.2
  apply @Val.rec p (fun v w _ => M v w) (fun x y _ => part x y)
    (fun vs ws _ => List.Forall₂ part vs ws) (fun vs ws _ => List.Forall₂ M vs ws) _ _ _ _ _ _ _ _
    _ _ _ _ _ v w alike
  · exact bool
  · exact int
  · exact float
  · exact string
  · exact type _ _
  · exact enum _ _
  · exact fun same _ parts => record _ _ _ _ same parts
  · exact fun _ parts => array _ _ parts
  · exact fun name _ _ _ holds => ⟨rfl, holds⟩
  · exact .nil
  · exact fun _ _ head rest => .cons head rest
  · exact .nil
  · exact fun _ _ head rest => .cons head rest

end

structure Member (p : Pairing) (d e : MemberDecl) : Prop where
  id : p.member d.id e.id
  name : d.name = e.name
  declaring : p.type d.declaring e.declaring
  visibility : d.visibility = e.visibility
  params : List.Forall₂ (p.arg d.declaring) d.params e.params
  returns : p.Returns d.returns e.returns
  default : Option.Rel p.Val d.default e.default
  bridgeOf : Option.Rel p.member d.bridgeOf e.bridgeOf

theorem Member.isPrivate {p : Pairing} {d e : MemberDecl} (related : p.Member d e) :
    d.isPrivate = e.isPrivate := by
  unfold MemberDecl.isPrivate
  rw [related.visibility]

def element (p : Pairing) : Element → Element → Prop
  | .type a, .type b => p.type a b
  | .member a, .member b => p.member a b
  | .parameter a i, .parameter b j => p.member a b ∧ i = j ∧ p.parameter a i
  | _, _ => False

def slot (p : Pairing) : Slot → Slot → Prop := Option.Rel p.record

def event (p : Pairing) : Event → Event → Prop
  | .enter i, .enter j => i = j
  | .records i e slots, .records j f others =>
    i = j ∧ p.element e f ∧ List.Forall₂ p.slot slots others
  | .failure e x, .failure f y => p.element e f ∧ p.error x y
  | _, _ => False

end Pairing

end Lineage
