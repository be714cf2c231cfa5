import Lineage.Proofs.Pairing.Basic

namespace Lineage

-- What a declaration or a value names, at any depth.

def TypeArg.types : TypeArg → List TypeId
  | .concrete id => [id]
  | .var _ => []

def SuperRef.types (r : SuperRef) : List TypeId := r.target :: r.args.flatMap TypeArg.types

def TypeDecl.types (d : TypeDecl) : List TypeId :=
  d.params.flatMap (·.bound.toList) ++ d.supertypes.flatMap SuperRef.types ++ d.enclosing.toList

def ValueType.types : ValueType → List TypeId
  | .enum id | .record id => [id]
  | .array item => item.types
  | .void | .bool | .int | .float | .string | .type => []

mutual

def Value.types : Value → List TypeId
  | .type id | .enum id _ => [id]
  | .record r => r.types
  | .array items => Value.itemTypes items
  | .bool _ | .int _ | .float _ | .string _ => []
termination_by structural v => v

def Value.itemTypes : List Value → List TypeId
  | [] => []
  | v :: vs => v.types ++ Value.itemTypes vs
termination_by structural vs => vs

def Record.types : Record → List TypeId
  | ⟨kind, values⟩ => kind :: Record.valuesTypes values
termination_by structural r => r

def Record.valuesTypes : List (String × Value) → List TypeId
  | [] => []
  | v :: vs => Record.valueTypes v ++ Record.valuesTypes vs
termination_by structural vs => vs

def Record.valueTypes : String × Value → List TypeId
  | (_, v) => v.types
termination_by structural v => v

end

def MemberDecl.types (d : MemberDecl) : List TypeId :=
  d.declaring :: d.params.flatMap TypeArg.types ++ d.returns.types ++
    d.default.toList.flatMap Value.types

def MemberDecl.members (d : MemberDecl) : List MemberId := d.id :: d.bridgeOf.toList

namespace Pairing

variable {p : Pairing} {owner : TypeId}

theorem returns_self {t : ValueType} (same : ∀ id ∈ t.types, p.type id id) : p.Returns t t := by
  induction t with
  | enum id => exact .enum (same id List.mem_cons_self)
  | record id => exact .record (same id List.mem_cons_self)
  | array item ih => exact .array (ih same)
  | _ => constructor

mutual

theorem val_self : ∀ {v : Value}, (∀ id ∈ v.types, p.type id id) → p.Val v v
  | .bool b, _ => .bool b
  | .int i, _ => .int i
  | .float x, _ => .float x
  | .string s, _ => .string s
  | .type id, same => .type (same id List.mem_cons_self)
  | .enum id constant, same => .enum constant (same id List.mem_cons_self)
  | .record ⟨kind, _⟩, same =>
    .record (same kind List.mem_cons_self)
      (entries_self fun id there => same id (List.mem_cons_of_mem _ there))
  | .array _, same => .array (vals_self same)

theorem entries_self : ∀ {values : List (String × Value)},
    (∀ id ∈ Record.valuesTypes values, p.type id id) → List.Forall₂ p.Entry values values
  | [], _ => .nil
  | (name, _) :: _, same =>
    .cons (.named name (val_self fun id there => same id (List.mem_append_left _ there)))
      (entries_self fun id there => same id (List.mem_append_right _ there))

theorem vals_self : ∀ {items : List Value},
    (∀ id ∈ Value.itemTypes items, p.type id id) → List.Forall₂ p.Val items items
  | [], _ => .nil
  | _ :: _, same =>
    .cons (val_self fun id there => same id (List.mem_append_left _ there))
      (vals_self fun id there => same id (List.mem_append_right _ there))

end

theorem record_self {r : Record} (same : ∀ id ∈ r.types, p.type id id) : p.record r r :=
  val_self same

section

variable (vars : ∀ owner name, p.var owner name name)
include vars

theorem arg_self {x : TypeArg} (same : ∀ id ∈ x.types, p.type id id) : p.arg owner x x := by
  cases x with
  | concrete id => exact same id List.mem_cons_self
  | var name => exact vars owner name

theorem args_self {xs : List TypeArg} (same : ∀ id ∈ xs.flatMap TypeArg.types, p.type id id) :
    List.Forall₂ (p.arg owner) xs xs :=
  List.forall₂_same.mpr fun x listed => arg_self vars fun id there =>
    same id (List.mem_flatMap.mpr ⟨x, listed, there⟩)

theorem ref_self {r : SuperRef} (same : ∀ id ∈ r.types, p.type id id) : p.Ref owner r r :=
  ⟨same r.target List.mem_cons_self,
    args_self vars fun id there => same id (List.mem_cons_of_mem _ there)⟩

/-- A declaration stands for itself if all types that it names do. -/
theorem decl_self {d : TypeDecl} (same : ∀ id ∈ d.types, p.type id id) : p.Decl owner d d := by
  have params : ∀ x ∈ d.params, p.Param owner x x := by
    intro x listed
    refine ⟨vars owner x.name, rel_self fun id there => same id ?_⟩
    have bounds : id ∈ d.params.flatMap (·.bound.toList) := List.mem_flatMap.mpr ⟨x, listed, there⟩
    exact List.mem_append_left _ (List.mem_append_left _ bounds)
  have supers : ∀ r ∈ d.supertypes, p.Ref owner r r := by
    intro r listed
    refine ref_self vars fun id there => same id ?_
    have above : id ∈ d.supertypes.flatMap SuperRef.types := List.mem_flatMap.mpr ⟨r, listed, there⟩
    exact List.mem_append_left _ (List.mem_append_right _ above)
  exact {
    name := rfl
    flavor := rfl
    params := List.forall₂_same.mpr params
    superclass := rel_self fun r there => supers r (List.mem_append_left _ there)
    interfaces := List.forall₂_same.mpr fun r there => supers r (List.mem_append_right _ there)
    enclosing := rel_self fun id there => same id (List.mem_append_right _ there)
    inherited := rfl
    present := rfl }

theorem member_self {d : MemberDecl} (same : ∀ id ∈ d.types, p.type id id)
    (members : ∀ id ∈ d.members, p.member id id) : p.Member d d where
  id := members d.id List.mem_cons_self
  name := rfl
  declaring := same d.declaring List.mem_cons_self
  visibility := rfl
  params := args_self vars fun id there =>
    same id (List.mem_append_left _ (List.mem_append_left _ (List.mem_cons_of_mem _ there)))
  returns := returns_self fun id there =>
    same id (List.mem_append_left _ (List.mem_append_right _ there))
  default := rel_self fun v given => val_self fun id there =>
    same id (List.mem_append_right _ (List.mem_flatMap.mpr ⟨v, given, there⟩))
  bridgeOf := rel_self fun id there => members id (List.mem_cons_of_mem _ there)

end

end Pairing

end Lineage
