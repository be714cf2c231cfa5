import Lineage.Value

namespace Lineage

open Float.Model (UnpackedFloat)

/-- Floats that agree: the two zeros do, and a NaN agrees with nothing, itself included. -/
inductive SameFloat : UnpackedFloat → UnpackedFloat → Prop
  | infinity (s : UnpackedFloat.Sign) : SameFloat (.infinity s) (.infinity s)
  | zero (s t : UnpackedFloat.Sign) : SameFloat (.zero s) (.zero t)
  | finite (s : UnpackedFloat.Sign) (m : Nat) (e : Int) (pos : 0 < m) :
      SameFloat (.finite s m e pos) (.finite s m e pos)

namespace SameFloat

theorem symm {a b : UnpackedFloat} : SameFloat a b → SameFloat b a
  | .infinity s => .infinity s
  | .zero s t => .zero t s
  | .finite s m e pos => .finite s m e pos

theorem trans {a b c : UnpackedFloat} : SameFloat a b → SameFloat b c → SameFloat a c
  | .infinity _, same => same
  | .zero s _, .zero _ u => .zero s u
  | .finite _ _ _ _, same => same

theorem compare {a b : UnpackedFloat} (same : SameFloat a b) : a.compare b = some .eq := by
  cases same with
  | infinity s => cases s <;> rfl
  | zero s t => cases s <;> rfl
  | finite s m e pos =>
    have equal : (Ord.compare e e).then (Ord.compare m m) = .eq :=
      Ordering.then_eq_eq.mpr ⟨Int.compare_eq_eq.mpr rfl, Nat.compare_eq_eq.mpr rfl⟩
    cases s with
    | positive => exact congrArg some equal
    | negative => exact congrArg (fun order => some order.swap) equal

theorem finite_of_compare {s : UnpackedFloat.Sign} {m n : Nat} {e f : Int} {pos : 0 < m}
    {pos' : 0 < n} (equal : (Ord.compare e f).then (Ord.compare m n) = .eq) :
    SameFloat (.finite s m e pos) (.finite s n f pos') := by
  obtain ⟨exponents, mantissas⟩ := Ordering.then_eq_eq.mp equal
  obtain rfl := Int.compare_eq_eq.mp exponents
  obtain rfl := Nat.compare_eq_eq.mp mantissas
  exact .finite s m e pos

theorem of_compare : ∀ {a b : UnpackedFloat}, a.compare b = some .eq → SameFloat a b
  | .infinity .positive, .infinity .positive, _ => .infinity .positive
  | .infinity .negative, .infinity .negative, _ => .infinity .negative
  | .zero s, .zero t, _ => .zero s t
  | .finite .positive _ _ _, .finite .positive _ _ _, equal =>
    finite_of_compare (Option.some.inj equal)
  | .finite .negative _ _ _, .finite .negative _ _ _, equal =>
    finite_of_compare (Ordering.swap_eq_eq.mp (Option.some.inj equal))

end SameFloat

theorem sameFloat_iff {a b : Float} :
    (a == b) = true ↔ SameFloat a.toModel.unpack b.toModel.unpack := by
  show (UnpackedFloat.compare _ _ == some .eq) = true ↔ _
  rw [beq_iff_eq]
  exact ⟨SameFloat.of_compare, SameFloat.compare⟩

instance floatPartialEquiv : PartialEquivBEq Float where
  symm equal := sameFloat_iff.mpr (sameFloat_iff.mp equal).symm
  trans first second :=
    sameFloat_iff.mpr ((sameFloat_iff.mp first).trans (sameFloat_iff.mp second))

instance optionPartialEquiv {α : Type} [BEq α] [PartialEquivBEq α] :
    PartialEquivBEq (Option α) where
  symm {a b} equal :=
    match a, b, equal with
    | none, none, _ => rfl
    | some _, some _, equal => BEq.symm (α := α) equal
  trans {a b c} first second :=
    match a, b, c, first, second with
    | none, none, none, _, _ => rfl
    | some _, some _, some _, first, second => BEq.trans (α := α) first second

theorem and_map {p q p₁ q₁ : Bool} (left : p = true → p₁ = true) (right : q = true → q₁ = true)
    (both : (p && q) = true) : (p₁ && q₁) = true :=
  Bool.and_eq_true_iff.mpr ((Bool.and_eq_true_iff.mp both).imp left right)

theorem and_map₂ {p q p₁ q₁ p₂ q₂ : Bool} (left : p = true → p₁ = true → p₂ = true)
    (right : q = true → q₁ = true → q₂ = true) (first : (p && q) = true)
    (second : (p₁ && q₁) = true) : (p₂ && q₂) = true := by
  obtain ⟨p_holds, q_holds⟩ := Bool.and_eq_true_iff.mp first
  exact and_map (left p_holds) (right q_holds) second

-- Values of two different constructors are never equal, so only the cases on the diagonal remain.
mutual

theorem Value.beq_symm : ∀ {a b : Value}, a.beq b = true → b.beq a = true
  | .bool _, .bool _, equal => BEq.symm (α := Bool) equal
  | .int _, .int _, equal => BEq.symm (α := Int) equal
  | .float _, .float _, equal => BEq.symm (α := Float) equal
  | .string _, .string _, equal => BEq.symm (α := String) equal
  | .type _, .type _, equal => BEq.symm (α := TypeId) equal
  | .enum _ _, .enum _ _, equal => and_map BEq.symm BEq.symm equal
  | .record _, .record _, equal => Record.beq_symm equal
  | .array _, .array _, equal => Value.beqItems_symm equal

theorem Value.beqItems_symm : ∀ {as bs : List Value},
    Value.beqItems as bs = true → Value.beqItems bs as = true
  | [], [], _ => rfl
  | _ :: _, _ :: _, equal => and_map Value.beq_symm Value.beqItems_symm equal

theorem Record.beq_symm : ∀ {a b : Record}, a.beq b = true → b.beq a = true
  | ⟨_, _⟩, ⟨_, _⟩, equal => and_map BEq.symm Record.beqValues_symm equal

theorem Record.beqValues_symm : ∀ {as bs : List (String × Value)},
    Record.beqValues as bs = true → Record.beqValues bs as = true
  | [], [], _ => rfl
  | _ :: _, _ :: _, equal => and_map Record.beqValue_symm Record.beqValues_symm equal

theorem Record.beqValue_symm : ∀ {a b : String × Value},
    Record.beqValue a b = true → Record.beqValue b a = true
  | (_, _), (_, _), equal => and_map BEq.symm Value.beq_symm equal

end

mutual

theorem Value.beq_trans : ∀ {a b c : Value},
    a.beq b = true → b.beq c = true → a.beq c = true
  | .bool _, .bool _, .bool _, first, second => BEq.trans (α := Bool) first second
  | .int _, .int _, .int _, first, second => BEq.trans (α := Int) first second
  | .float _, .float _, .float _, first, second => BEq.trans (α := Float) first second
  | .string _, .string _, .string _, first, second => BEq.trans (α := String) first second
  | .type _, .type _, .type _, first, second => BEq.trans (α := TypeId) first second
  | .enum _ _, .enum _ _, .enum _ _, first, second => and_map₂ BEq.trans BEq.trans first second
  | .record _, .record _, .record _, first, second => Record.beq_trans first second
  | .array _, .array _, .array _, first, second => Value.beqItems_trans first second

theorem Value.beqItems_trans : ∀ {as bs cs : List Value},
    Value.beqItems as bs = true → Value.beqItems bs cs = true → Value.beqItems as cs = true
  | [], [], [], _, _ => rfl
  | _ :: _, _ :: _, _ :: _, first, second =>
    and_map₂ Value.beq_trans Value.beqItems_trans first second

theorem Record.beq_trans : ∀ {a b c : Record}, a.beq b = true → b.beq c = true → a.beq c = true
  | ⟨_, _⟩, ⟨_, _⟩, ⟨_, _⟩, first, second =>
    and_map₂ BEq.trans Record.beqValues_trans first second

theorem Record.beqValues_trans : ∀ {as bs cs : List (String × Value)},
    Record.beqValues as bs = true → Record.beqValues bs cs = true → Record.beqValues as cs = true
  | [], [], [], _, _ => rfl
  | _ :: _, _ :: _, _ :: _, first, second =>
    and_map₂ Record.beqValue_trans Record.beqValues_trans first second

theorem Record.beqValue_trans : ∀ {a b c : String × Value},
    Record.beqValue a b = true → Record.beqValue b c = true → Record.beqValue a c = true
  | (_, _), (_, _), (_, _), first, second => and_map₂ BEq.trans Value.beq_trans first second

end

instance Record.partialEquiv : PartialEquivBEq Record := ⟨Record.beq_symm, Record.beq_trans⟩

end Lineage
