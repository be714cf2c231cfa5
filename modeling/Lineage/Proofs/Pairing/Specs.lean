import Lineage.Model.Load
import Lineage.Proofs.Pairing.Values

namespace Lineage.Pairing

variable {p : Pairing} {c d : Catalog}

structure Names (p : Pairing) (c d : Catalog) : Prop where
  lookup : ∀ name, Option.Rel p.type (c.lookup name) (d.lookup name)
  var : ∀ owner name, p.var owner name name

structure Described (p : Pairing) (owner : TypeId) (x y : TypeDef) : Prop where
  name : x.name = y.name
  flavor : x.flavor = y.flavor
  params : List.Forall₂ (p.Param owner) x.params y.params
  superclass : Option.Rel (p.Ref owner) x.superclass y.superclass
  interfaces : List.Forall₂ (p.Ref owner) x.interfaces y.interfaces
  enclosing : Option.Rel p.type x.enclosing y.enclosing
  inherited : x.inherited = y.inherited
  records : List.Forall₂ p.record x.records y.records

def ParamRecord (p : Pairing) (x y : Nat × Record) : Prop := x.1 = y.1 ∧ p.record x.2 y.2

structure Defined (p : Pairing) (owner : TypeId) (x y : MemberDef) : Prop where
  name : x.name = y.name
  visibility : x.visibility = y.visibility
  params : List.Forall₂ (p.arg owner) x.params y.params
  returns : p.Returns x.returns y.returns
  default : Option.Rel p.Val x.default y.default
  bridgeOf : Option.Rel p.member x.bridgeOf y.bridgeOf
  records : List.Forall₂ p.record x.records y.records
  paramRecords : List.Forall₂ p.ParamRecord x.paramRecords y.paramRecords

structure Added (p : Pairing) (x y : Model.Added) : Prop where
  name : x.name = y.name
  id : p.member x.id y.id
  isBridge : x.isBridge = y.isBridge

theorem setNamed_related {name : String} {v w : Value} {vs ws : List (String × Value)}
    (alike : p.Val v w) (related : List.Forall₂ p.Entry vs ws) :
    List.Forall₂ p.Entry (setNamed name v vs) (setNamed name w ws) := by
  induction related with
  | nil => exact .cons (.named name alike) .nil
  | cons head rest ih =>
    cases head with
    | named other same =>
      unfold setNamed
      by_cases here : other = name
      · rw [if_pos here, if_pos here]
        exact .cons (.named other alike) rest
      · rw [if_neg here, if_neg here]
        exact .cons (.named other same) ih

theorem set_related {name : String} {v w : Value} {r s : Record} (alike : p.Val v w)
    (related : p.record r s) : p.record (r.set name v) (s.set name w) := by
  obtain ⟨k, vs⟩ := r
  obtain ⟨l, ws⟩ := s
  cases related with
  | record kinds values => exact .record kinds (setNamed_related alike values)

theorem setAll_related {vs ws : List (String × Value)} {r s : Record}
    (values : List.Forall₂ p.Entry vs ws) (related : p.record r s) :
    p.record (vs.foldl (fun r (name, v) => r.set name v) r)
      (ws.foldl (fun r (name, v) => r.set name v) s) := by
  induction values generalizing r s with
  | nil => exact related
  | cons head _ ih =>
    cases head with
    | named name alike => exact ih (set_related alike related)

theorem bridgeTarget_related (spec : Model.TypeSpec) {earlier others : List Model.Added} (name : String)
    (related : List.Forall₂ p.Added earlier others) :
    Agree Eq p.member (Model.bridgeTarget spec earlier name)
      (Model.bridgeTarget spec others name) := by
  unfold Model.bridgeTarget
  induction related with
  | nil => exact .error rfl
  | @cons x y _ _ head _ ih =>
    rw [List.find?_cons, List.find?_cons, head.name, head.isBridge]
    cases y.name = name && !y.isBridge with
    | true => exact .ok head.id
    | false => exact ih

namespace Names

section

variable (names : p.Names c d)
include names

theorem resolve (context name : String) :
    Agree Eq p.type (Model.resolve c context name) (Model.resolve d context name) := by
  unfold Model.resolve
  obtain ⟨first, second⟩ | ⟨a, b, first, second, same⟩ := rel_cases (names.lookup name)
  · rw [first, second]
    exact .error rfl
  · rw [first, second]
    exact .ok same

theorem typeArg (owner : TypeId) (spec : Model.TypeSpec) (arg : String) :
    Agree Eq (p.arg owner) (Model.typeArg c spec arg) (Model.typeArg d spec arg) := by
  apply Agree.ite Iff.rfl
  · intro _
    exact .ok (names.var owner arg)
  · intro _
    exact (names.resolve spec.name arg).map fun _ _ same => same

theorem superRef (owner : TypeId) (spec : Model.TypeSpec) (s : Model.SuperSpec) :
    Agree Eq (p.Ref owner) (Model.superRef c spec s) (Model.superRef d spec s) := by
  apply (names.resolve spec.name s.name).bind
  intro a b _ _ target
  have args := Agree.mapM_same s.args fun x => names.typeArg owner spec x
  exact args.bind fun _ _ _ _ given => .pure ⟨target, given⟩

end

mutual

theorem value (names : p.Names c d) (context : String) :
    ∀ v, Agree Eq p.Val (Model.value c context v) (Model.value d context v)
  | .bool b => .ok (.bool b)
  | .int i => .ok (.int i)
  | .float x => .ok (.float x)
  | .string s => .ok (.string s)
  | .type name => (names.resolve context name).bind fun _ _ _ _ same => .pure (.type same)
  | .enum name constant =>
    (names.resolve context name).bind fun _ _ _ _ same => .pure (.enum constant same)
  | .record r => (record names context r).bind fun _ _ _ _ related => .pure related
  | .array items => (valueItems names context items).bind fun _ _ _ _ related => .pure (.array related)

theorem valueItems (names : p.Names c d) (context : String) : ∀ vs, Agree Eq (List.Forall₂ p.Val)
    (Model.valueItems c context vs) (Model.valueItems d context vs)
  | [] => .ok .nil
  | v :: vs => (value names context v).bind fun _ _ _ _ first =>
    (valueItems names context vs).bind fun _ _ _ _ others => .pure (.cons first others)

theorem record (names : p.Names c d) (context : String) :
    ∀ r, Agree Eq p.record (Model.record c context r) (Model.record d context r)
  | ⟨kind, values⟩ => (names.resolve context kind).bind fun _ _ _ _ kinds =>
    (recordValues names context values).bind fun _ _ _ _ related =>
      .pure (setAll_related related (.record kinds .nil))

theorem recordValues (names : p.Names c d) (context : String) : ∀ vs, Agree Eq (List.Forall₂ p.Entry)
    (Model.recordValues c context vs) (Model.recordValues d context vs)
  | [] => .ok .nil
  | v :: vs => (recordValue names context v).bind fun _ _ _ _ first =>
    (recordValues names context vs).bind fun _ _ _ _ others => .pure (.cons first others)

theorem recordValue (names : p.Names c d) (context : String) :
    ∀ v, Agree Eq p.Entry (Model.recordValue c context v) (Model.recordValue d context v)
  | (name, v) => (value names context v).bind fun _ _ _ _ alike => .pure (.named name alike)

end


section

variable (names : p.Names c d)
include names

theorem typeParam (owner : TypeId) (spec : Model.TypeSpec) (x : Model.ParamSpec) :
    Agree Eq (p.Param owner) (Model.typeParam c spec x) (Model.typeParam d spec x) := by
  have bound := Agree.optionMapM_same x.bound (names.resolve spec.name)
  exact bound.bind fun _ _ _ _ related => .pure ⟨names.var owner x.name, related⟩

theorem typeDef (owner : TypeId) (t : Model.TypeSpec) :
    Agree Eq (p.Described owner) (Model.typeDef c t) (Model.typeDef d t) := by
  apply (Agree.mapM_same t.params (names.typeParam owner t)).bind
  intro params params' _ _ sameParams
  apply (Agree.optionMapM_same t.superclass (names.superRef owner t)).bind
  intro superclass superclass' _ _ sameSuperclass
  apply (Agree.mapM_same t.interfaces (names.superRef owner t)).bind
  intro interfaces interfaces' _ _ sameInterfaces
  apply (Agree.optionMapM_same t.enclosing (names.resolve t.name)).bind
  intro enclosing enclosing' _ _ sameEnclosing
  apply (Agree.mapM_same t.records (names.record t.name)).bind
  intro records records' _ _ sameRecords
  exact .pure ⟨rfl, rfl, sameParams, sameSuperclass, sameInterfaces, sameEnclosing, rfl, sameRecords⟩

theorem parseBase (text : List Char) :
    Agree Eq p.Returns (ValueType.parseBase c text) (ValueType.parseBase d text) := by
  unfold ValueType.parseBase
  cases known : findNamed (String.ofList text) ValueType.keywords with
  | some keyword =>
    have simple : keyword ∈ ValueType.keywords.map (·.2) := by
      unfold findNamed at known
      obtain ⟨entry, found, rfl⟩ := Option.map_eq_some_iff.mp known
      exact List.mem_map_of_mem (List.mem_of_find?_eq_some found)
    apply Agree.ok
    simp only [ValueType.keywords, List.map_cons, List.map_nil, List.mem_cons, List.not_mem_nil,
      or_false] at simple
    rcases simple with rfl | rfl | rfl | rfl | rfl | rfl <;> constructor
  | none =>
    simp only
    cases Text.cut ':' text with
    | none => exact .error rfl
    | some parts =>
      obtain ⟨what, name⟩ := parts
      obtain ⟨first, second⟩ | ⟨a, b, first, second, same⟩ :=
        rel_cases (names.lookup (String.ofList name))
      · simp only [first, second]
        exact .error rfl
      · simp only [first, second]
        apply Agree.ite Iff.rfl
        · intro _
          exact .ok (.enum same)
        · intro _
          apply Agree.ite Iff.rfl
          · intro _
            exact .ok (.record same)
          · intro _
            exact .error rfl

theorem parse (text : List Char) :
    Agree Eq p.Returns (ValueType.parse c text) (ValueType.parse d text) := by
  induction text using ValueType.parse.induct with
  | case1 text item array shorter ih =>
    rw [ValueType.parse_array array, ValueType.parse_array array]
    exact ih.map fun _ _ => .array
  | case2 text base =>
    rw [ValueType.parse_base base, ValueType.parse_base base]
    exact names.parseBase _

theorem paramRecords (context : String) (specs : List (Nat × List Model.RecordSpec)) :
    Agree Eq (List.Forall₂ p.ParamRecord) (Model.paramRecords c context specs)
      (Model.paramRecords d context specs) := by
  induction specs with
  | nil => exact .ok .nil
  | cons spec rest ih =>
    obtain ⟨index, records⟩ := spec
    apply (Agree.mapM_same records (names.record context)).bind
    intro first first' _ _ sameFirst
    apply ih.bind
    intro others others' _ _ sameOthers
    apply Agree.pure
    apply List.rel_append _ sameOthers
    exact List.rel_map (fun _ _ related => ⟨rfl, related⟩) sameFirst

theorem memberDef (owner : TypeId) (spec : Model.TypeSpec) {earlier others : List Model.Added} (m : Model.MemberSpec)
    (related : List.Forall₂ p.Added earlier others) :
    Agree Eq (p.Defined owner) (Model.memberDef c spec earlier m)
      (Model.memberDef d spec others m) := by
  apply (Agree.mapM_same m.params (names.typeArg owner spec)).bind
  intro params params' _ _ sameParams
  apply (Agree.optionMapM_same m.returns fun text => names.parse text.toList).bind
  intro returns returns' _ _ sameReturns
  apply (Agree.optionMapM_same m.default (names.value (spec.name ++ "#" ++ m.name))).bind
  intro default default' _ _ sameDefault
  have target := Agree.optionMapM_same m.bridgeOf fun name => bridgeTarget_related spec name related
  apply target.bind
  intro bridgeOf bridgeOf' _ _ sameBridge
  apply (Agree.mapM_same m.records (names.record (spec.name ++ "#" ++ m.name))).bind
  intro records records' _ _ sameRecords
  apply (names.paramRecords (spec.name ++ "#" ++ m.name) m.paramRecords).bind
  intro paramRecords paramRecords' _ _ sameParamRecords
  have sameReturns : p.Returns (returns.getD .void) (returns'.getD .void) := by
    cases sameReturns with
    | none => exact .void
    | some same => exact same
  exact .pure ⟨rfl, rfl, sameParams, sameReturns, sameDefault, sameBridge, sameRecords,
    sameParamRecords⟩

end

end Names

end Lineage.Pairing
