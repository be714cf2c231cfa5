import Lineage.Proofs.Pairing.Queries

namespace Lineage.Pairing

variable {p : Pairing} {c d : Catalog} {v w : Value} {r s : Record}

theorem typeRefs_related (alike : p.Val v w) : List.Forall₂ p.type v.typeRefs w.typeRefs := by
  apply alike.induct (M := fun v w => List.Forall₂ p.type v.typeRefs w.typeRefs)
  case bool => exact fun _ => .nil
  case int => exact fun _ => .nil
  case float => exact fun _ => .nil
  case string => exact fun _ => .nil
  case type => exact fun _ _ same => .cons same .nil
  case enum => exact fun _ _ _ same => .cons same .nil
  case record => exact fun _ _ _ _ _ _ => .nil
  case array =>
    intro vs ws parts
    show List.Forall₂ p.type (Value.typeRefsOf vs) (Value.typeRefsOf ws)
    induction parts with
    | nil => exact .nil
    | cons head _ ih => exact List.rel_append head ih

theorem values_beq {vs ws vs' ws' : List Value}
    (first : List.Forall₂ (fun v w => ∀ v' w', p.Val v' w' → v.beq v' = w.beq w') vs ws)
    (second : List.Forall₂ p.Val vs' ws') : Value.beqItems vs vs' = Value.beqItems ws ws' := by
  induction first generalizing vs' ws' with
  | nil => cases second <;> rfl
  | cons head _ ih =>
    cases second with
    | nil => rfl
    | cons other others =>
      simp only [Value.beqItems]
      rw [head _ _ other, ih others]

theorem entries_beq {vs ws vs' ws' : List (String × Value)}
    (first : List.Forall₂
      (fun x y => x.1 = y.1 ∧ ∀ v' w', p.Val v' w' → x.2.beq v' = y.2.beq w') vs ws)
    (second : List.Forall₂ p.Entry vs' ws') : Record.beqValues vs vs' = Record.beqValues ws ws' := by
  induction first generalizing vs' ws' with
  | nil => cases second <;> rfl
  | @cons x y _ _ head _ ih =>
    obtain ⟨name, value⟩ := x
    obtain ⟨name', value'⟩ := y
    obtain ⟨rfl, same⟩ := head
    cases second with
    | nil => rfl
    | cons other others =>
      cases other with
      | named _ alike =>
        simp only [Record.beqValues, Record.beqValue]
        rw [same _ _ alike, ih others]

theorem type_beq {a b x y : TypeId} (first : p.type a b) (second : p.type x y) :
    (a == x) = (b == y) := by
  rw [Bool.eq_iff_iff, beq_iff_eq, beq_iff_eq]
  exact type_eq_iff first second

theorem value_beq (first : p.Val v w) :
    ∀ v' w', p.Val v' w' → v.beq v' = w.beq w' := by
  apply first.induct (M := fun v w => ∀ v' w', p.Val v' w' → v.beq v' = w.beq w')
  case bool => exact fun _ _ _ second => by cases second <;> rfl
  case int => exact fun _ _ _ second => by cases second <;> rfl
  case float => exact fun _ _ _ second => by cases second <;> rfl
  case string => exact fun _ _ _ second => by cases second <;> rfl
  case type =>
    intro a b same v' w' second
    cases second with
    | type other => exact type_beq same other
    | _ => rfl
  case enum =>
    intro a b constant same v' w' second
    cases second with
    | enum constant' other =>
      simp only [Value.beq]
      rw [type_beq same other]
    | _ => rfl
  case record =>
    intro k l vs ws same parts v' w' second
    cases second with
    | record other others =>
      simp only [Value.beq, Record.beq]
      rw [type_beq same other, entries_beq parts others]
    | _ => rfl
  case array =>
    intro vs ws parts v' w' second
    cases second with
    | array others =>
      simp only [Value.beq]
      exact values_beq parts others
    | _ => rfl

theorem value?_related (related : p.record r s) (name : String) :
    Option.Rel p.Val (r.value? name) (s.value? name) := by
  obtain ⟨k, vs⟩ := r
  obtain ⟨l, ws⟩ := s
  cases related with
  | record _ parts =>
    unfold Record.value? findNamed
    show Option.Rel p.Val ((vs.find? _).map _) ((ws.find? _).map _)
    induction parts with
    | nil => exact .none
    | cons head _ ih =>
      cases head with
      | named other alike =>
        rw [List.find?_cons, List.find?_cons]
        by_cases same : other = name
        · simp only [same, decide_true, Option.map_some]
          exact .some alike
        · simp only [same, decide_false]
          exact ih

end Lineage.Pairing
