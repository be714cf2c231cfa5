import Lineage.Proofs.Lists
import Lineage.Proofs.Model.Loaded

namespace Lineage

namespace Model

mutual

def ValueSpec.typeNames : ValueSpec → List String
  | .type name | .enum name _ => [name]
  | .record r => r.typeNames
  | .array items => ValueSpec.itemNames items
  | .bool _ | .int _ | .float _ | .string _ => []
termination_by structural v => v

def ValueSpec.itemNames : List ValueSpec → List String
  | [] => []
  | v :: vs => v.typeNames ++ ValueSpec.itemNames vs
termination_by structural vs => vs

def RecordSpec.typeNames : RecordSpec → List String
  | ⟨kind, values⟩ => kind :: RecordSpec.valuesNames values
termination_by structural r => r

def RecordSpec.valuesNames : List (String × ValueSpec) → List String
  | [] => []
  | v :: vs => RecordSpec.valueNames v ++ RecordSpec.valuesNames vs
termination_by structural vs => vs

def RecordSpec.valueNames : String × ValueSpec → List String
  | (_, v) => v.typeNames
termination_by structural v => v

end

def MemberSpec.typeNames (x : MemberSpec) : List String :=
  x.default.toList.flatMap ValueSpec.typeNames ++ x.records.flatMap RecordSpec.typeNames ++
    x.paramRecords.flatMap fun entry => entry.2.flatMap RecordSpec.typeNames

def TypeSpec.supers (t : TypeSpec) : List SuperSpec := t.superclass.toList ++ t.interfaces

def TypeSpec.typeNames (t : TypeSpec) : List String :=
  t.params.flatMap (·.bound.toList) ++ t.supers.map (·.name) ++ t.enclosing.toList ++
    t.records.flatMap RecordSpec.typeNames

def TypeSpec.paramNames (t : TypeSpec) : List String := t.params.map (·.name)

end Model

def Model.names (m : Model) : List String := Catalog.rootName :: m.types.map (·.name)

namespace Model

structure MemberSpec.WellFormed (m : Model) (t : TypeSpec) (earlier : List MemberSpec)
    (x : MemberSpec) : Prop where
  names : x.typeNames ⊆ m.names
  params : x.params ⊆ t.paramNames ++ m.names
  returns : ∀ text, x.returns = some text → ∃ read, ValueType.ofText (reservedFor m) text = .ok read
  bridge : ∀ name, x.bridgeOf = some name →
    ∃ target ∈ earlier, target.name = name ∧ target.bridgeOf = none

structure TypeSpec.WellFormed (m : Model) (t : TypeSpec) : Prop where
  names : t.typeNames ⊆ m.names
  args : t.supers.flatMap (·.args) ⊆ t.paramNames ++ m.names
  members : ∀ earlier x later, t.members = earlier ++ x :: later → x.WellFormed m t earlier

end Model

/-- Names are given once, and never the name of the root; what is said of the types that are not
    absent can be understood. -/
structure Model.WellFormed (m : Model) : Prop where
  root : Catalog.rootName ∉ m.types.map (·.name)
  distinct : (m.types.map (·.name)).Nodup
  types : ∀ t ∈ m.types, t.absent = false → t.WellFormed m

namespace Model

variable {c : Catalog} {m : Model} {t : TypeSpec} {context name : String}

theorem succeeds_resolve (aligned : c.Aligned) :
    Succeeds (resolve c context name) ↔ name ∈ c.names := by
  unfold resolve
  cases known : c.lookup name with
  | none => exact ⟨nofun, fun there => absurd there (aligned.lookup_eq_none_iff.mp known)⟩
  | some id =>
    exact iff_of_true (succeeds_ok id) (List.mem_of_getElem? (aligned.lookup_sound known))

theorem succeeds_typeArg (aligned : c.Aligned) {arg : String} :
    Succeeds (typeArg c t arg) ↔ arg ∈ t.paramNames ++ c.names := by
  rw [List.mem_append]
  unfold typeArg
  split
  · rename_i own
    obtain ⟨p, listed, same⟩ := List.any_eq_true.mp own
    exact iff_of_true (succeeds_ok _) (.inl (List.mem_map.mpr ⟨p, listed, of_decide_eq_true same⟩))
  · rename_i foreign
    have other : arg ∉ t.paramNames := by
      intro there
      obtain ⟨p, listed, same⟩ := List.mem_map.mp there
      exact foreign (List.any_eq_true.mpr ⟨p, listed, decide_eq_true same⟩)
    rw [or_iff_right other, ← succeeds_resolve aligned]
    exact succeeds_then

theorem succeeds_superRef (aligned : c.Aligned) {s : SuperSpec} :
    Succeeds (superRef c t s) ↔ s.name ∈ c.names ∧ s.args ⊆ t.paramNames ++ c.names := by
  unfold superRef
  rw [succeeds_bind fun _ _ => succeeds_then, succeeds_resolve aligned, succeeds_mapM]
  exact and_congr_right fun _ => forall₂_congr fun _ _ => succeeds_typeArg aligned

mutual

theorem succeeds_value (aligned : c.Aligned) (context : String) :
    ∀ v : ValueSpec, Succeeds (value c context v) ↔ v.typeNames ⊆ c.names
  | .bool _ | .int _ | .float _ | .string _ =>
    iff_of_true ⟨_, rfl⟩ (List.nil_subset _)
  | .type name | .enum name _ => by
    rw [value, succeeds_then, succeeds_resolve aligned, ValueSpec.typeNames, List.cons_subset,
      and_iff_left (List.nil_subset _)]
  | .record r => by
    rw [value, succeeds_then, succeeds_record aligned context r, ValueSpec.typeNames]
  | .array items => by
    rw [value, succeeds_then, succeeds_items aligned context items, ValueSpec.typeNames]

theorem succeeds_items (aligned : c.Aligned) (context : String) :
    ∀ vs, Succeeds (valueItems c context vs) ↔ ValueSpec.itemNames vs ⊆ c.names
  | [] => iff_of_true (succeeds_ok []) (List.nil_subset _)
  | v :: vs => by
    rw [valueItems, succeeds_bind fun _ _ => succeeds_then, succeeds_value aligned context v,
      succeeds_items aligned context vs, ValueSpec.itemNames, List.append_subset]

theorem succeeds_record (aligned : c.Aligned) (context : String) :
    ∀ r : RecordSpec, Succeeds (record c context r) ↔ r.typeNames ⊆ c.names
  | ⟨kind, values⟩ => by
    rw [record, succeeds_bind fun _ _ => succeeds_then, succeeds_resolve aligned,
      succeeds_values aligned context values, RecordSpec.typeNames, List.cons_subset]

theorem succeeds_values (aligned : c.Aligned) (context : String) :
    ∀ vs, Succeeds (recordValues c context vs) ↔ RecordSpec.valuesNames vs ⊆ c.names
  | [] => iff_of_true (succeeds_ok []) (List.nil_subset _)
  | v :: vs => by
    rw [recordValues, succeeds_bind fun _ _ => succeeds_then, succeeds_recordValue aligned context v,
      succeeds_values aligned context vs, RecordSpec.valuesNames, List.append_subset]

theorem succeeds_recordValue (aligned : c.Aligned) (context : String) :
    ∀ v, Succeeds (recordValue c context v) ↔ RecordSpec.valueNames v ⊆ c.names
  | (_, v) => by rw [recordValue, succeeds_then, succeeds_value aligned context v, RecordSpec.valueNames]

end

theorem succeeds_records (aligned : c.Aligned) {rs : List RecordSpec} :
    Succeeds (rs.mapM (record c context)) ↔ rs.flatMap RecordSpec.typeNames ⊆ c.names := by
  rw [succeeds_mapM, flatMap_subset_iff]
  exact forall₂_congr fun r _ => succeeds_record aligned context r

theorem succeeds_paramRecords (aligned : c.Aligned) {entries : List (Nat × List RecordSpec)} :
    Succeeds (paramRecords c context entries) ↔
      (entries.flatMap fun entry => entry.2.flatMap RecordSpec.typeNames) ⊆ c.names := by
  induction entries with
  | nil => exact iff_of_true (succeeds_ok []) (List.nil_subset _)
  | cons entry rest ih =>
    rw [paramRecords, succeeds_bind fun _ _ => succeeds_then, succeeds_records aligned, ih,
      List.flatMap_cons, List.append_subset]

theorem succeeds_typeParams (aligned : c.Aligned) {ps : List ParamSpec} :
    Succeeds (ps.mapM (typeParam c t)) ↔ ps.flatMap (·.bound.toList) ⊆ c.names := by
  rw [succeeds_mapM, flatMap_subset_iff]
  refine forall₂_congr fun p _ => ?_
  unfold typeParam
  rw [succeeds_then, succeeds_optionMapM]
  exact forall₂_congr fun _ _ => succeeds_resolve aligned

theorem succeeds_typeDef (aligned : c.Aligned) : Succeeds (typeDef c t) ↔
    t.typeNames ⊆ c.names ∧ t.supers.flatMap (·.args) ⊆ t.paramNames ++ c.names := by
  have parts : Succeeds (typeDef c t) ↔
      Succeeds (t.params.mapM (typeParam c t)) ∧
        (Succeeds (t.superclass.mapM (superRef c t)) ∧ Succeeds (t.interfaces.mapM (superRef c t))) ∧
        Succeeds (t.enclosing.mapM (resolve c t.name)) ∧
        Succeeds (t.records.mapM (record c t.name)) := by
    rw [and_assoc]
    exact succeeds_bind fun _ _ => succeeds_bind fun _ _ => succeeds_bind fun _ _ =>
      succeeds_bind fun _ _ => succeeds_then
  have supers : Succeeds (t.superclass.mapM (superRef c t)) ∧
      Succeeds (t.interfaces.mapM (superRef c t)) ↔
        t.supers.map (·.name) ⊆ c.names ∧ t.supers.flatMap (·.args) ⊆ t.paramNames ++ c.names := by
    rw [succeeds_optionMapM, succeeds_mapM, ← List.forall_mem_append,
      forall₂_congr fun _ _ => succeeds_superRef aligned, forall₂_and, flatMap_subset_iff, List.subset_def,
      List.forall_mem_map]
    rfl
  have enclosing : Succeeds (t.enclosing.mapM (resolve c t.name)) ↔ t.enclosing.toList ⊆ c.names := by
    rw [succeeds_optionMapM]
    exact forall₂_congr fun _ _ => succeeds_resolve aligned
  rw [parts, supers, succeeds_typeParams aligned, enclosing, succeeds_records aligned]
  unfold TypeSpec.typeNames
  rw [List.append_subset, List.append_subset, List.append_subset]
  tauto

theorem succeeds_bridgeTarget {earlier : List Added} {before : List MemberSpec}
    (told : earlier.map (fun x => (x.name, x.isBridge)) =
      before.map fun x => (x.name, x.bridgeOf.isSome)) :
    Succeeds (bridgeTarget t earlier name) ↔
      ∃ target ∈ before, target.name = name ∧ target.bridgeOf = none := by
  have found : (∃ target ∈ before, target.name = name ∧ target.bridgeOf = none) ↔
      (name, false) ∈ before.map fun x => (x.name, x.bridgeOf.isSome) := by
    simp only [List.mem_map, Prod.mk.injEq, Option.isSome_eq_false_iff, Option.isNone_iff_eq_none]
  rw [found, ← told, List.mem_map]
  unfold bridgeTarget
  split
  · rename_i target there
    have fits := List.find?_some there
    rw [Bool.and_eq_true, decide_eq_true_eq, Bool.not_eq_true'] at fits
    have listed := List.mem_of_find?_eq_some there
    exact iff_of_true (succeeds_ok _) ⟨target, listed, Prod.ext fits.1 fits.2⟩
  · rename_i nothing
    refine ⟨nofun, ?_⟩
    rintro ⟨target, listed, same⟩
    obtain ⟨name, plain⟩ := Prod.mk.inj same
    have fits := List.find?_eq_none.mp nothing target listed
    rw [name, plain] at fits
    simp at fits

theorem ofText_reservedFor (built : c.Built) (same : c.names = m.names) :
    ValueType.ofText c = ValueType.ofText (reservedFor m) := by
  have once : m.names.Nodup := same ▸ built.distinct
  have names := same.trans (names_reservedFor once).symm
  funext text
  exact parse_congr (built.aligned.lookup_congr (sound_reservedFor m).aligned names) text.toList

theorem succeeds_memberDef (built : c.Built) (same : c.names = m.names) {earlier : List Added}
    {before : List MemberSpec} {x : MemberSpec}
    (told : earlier.map (fun y => (y.name, y.isBridge)) =
      before.map fun y => (y.name, y.bridgeOf.isSome)) :
    Succeeds (memberDef c t earlier x) ↔ x.WellFormed m t before := by
  have parts : Succeeds (memberDef c t earlier x) ↔
      Succeeds (x.params.mapM (typeArg c t)) ∧ Succeeds (x.returns.mapM (ValueType.ofText c)) ∧
        Succeeds (x.default.mapM (value c (t.name ++ "#" ++ x.name))) ∧
        Succeeds (x.bridgeOf.mapM (bridgeTarget t earlier)) ∧
        Succeeds (x.records.mapM (record c (t.name ++ "#" ++ x.name))) ∧
        Succeeds (paramRecords c (t.name ++ "#" ++ x.name) x.paramRecords) :=
    succeeds_bind fun _ _ => succeeds_bind fun _ _ => succeeds_bind fun _ _ =>
      succeeds_bind fun _ _ => succeeds_bind fun _ _ => succeeds_then
  have params : Succeeds (x.params.mapM (typeArg c t)) ↔ x.params ⊆ t.paramNames ++ m.names := by
    rw [succeeds_mapM, ← same]
    exact forall₂_congr fun _ _ => succeeds_typeArg built.aligned
  have returns : Succeeds (x.returns.mapM (ValueType.ofText c)) ↔
      ∀ text, x.returns = some text → ∃ read, ValueType.ofText (reservedFor m) text = .ok read := by
    rw [succeeds_optionMapM, ofText_reservedFor built same]
    exact forall_congr' fun _ => imp_congr_left Option.mem_toList
  have default : Succeeds (x.default.mapM (value c (t.name ++ "#" ++ x.name))) ↔
      x.default.toList.flatMap ValueSpec.typeNames ⊆ m.names := by
    rw [succeeds_optionMapM, flatMap_subset_iff, ← same]
    exact forall₂_congr fun v _ => succeeds_value built.aligned _ v
  have bridge : Succeeds (x.bridgeOf.mapM (bridgeTarget t earlier)) ↔
      ∀ name, x.bridgeOf = some name →
        ∃ target ∈ before, target.name = name ∧ target.bridgeOf = none := by
    rw [succeeds_optionMapM]
    exact forall_congr' fun _ => imp_congr Option.mem_toList (succeeds_bridgeTarget told)
  have names : x.typeNames ⊆ m.names ↔
      x.default.toList.flatMap ValueSpec.typeNames ⊆ m.names ∧
        x.records.flatMap RecordSpec.typeNames ⊆ m.names ∧
        (x.paramRecords.flatMap fun entry => entry.2.flatMap RecordSpec.typeNames) ⊆ m.names := by
    unfold MemberSpec.typeNames
    rw [List.append_subset, List.append_subset, and_assoc]
  rw [parts, params, returns, default, bridge, succeeds_records built.aligned,
    succeeds_paramRecords built.aligned, same]
  constructor
  · intro ⟨params, returns, default, bridge, records, paramRecords⟩
    exact ⟨names.mpr ⟨default, records, paramRecords⟩, params, returns, bridge⟩
  · intro formed
    obtain ⟨default, records, paramRecords⟩ := names.mp formed.names
    exact ⟨formed.params, formed.returns, default, formed.bridge, records, paramRecords⟩

theorem succeeds_addMembers {on : TypeId} (built : c.Built) (same : c.names = m.names)
    (issued : on.index < c.types.length) {earlier : List Added} {before specs : List MemberSpec}
    (told : earlier.map (fun y => (y.name, y.isBridge)) =
      before.map fun y => (y.name, y.bridgeOf.isSome)) :
    Succeeds (addMembers t on c earlier specs) ↔
      ∀ first x last, specs = first ++ x :: last → x.WellFormed m t (before ++ first) := by
  induction specs generalizing c earlier before with
  | nil =>
    refine iff_of_true (succeeds_ok c) fun first x last split => ?_
    simp at split
  | cons x rest ih =>
    rw [forall_split_cons, ← succeeds_memberDef built same told, addMembers]
    refine succeeds_bind fun d defined => ?_
    have taken := built.aligned.addMember_issued d issued
    have kept : (c.withMember on d).names = m.names := same
    have still : on.index < (c.withMember on d).types.length := issued
    rw [taken]
    apply ih (.addMember on d built taken) kept still
    rw [List.map_append, List.map_append, told, List.map_singleton, List.map_singleton,
      isSome_of_mapM (defines_of_memberDef defined).bridgeOf]

theorem built_of_addMembers {on : TypeId} {after : Catalog} {earlier : List Added}
    {specs : List MemberSpec} (built : c.Built)
    (added : addMembers t on c earlier specs = .ok after) :
    after.Built ∧ after.names = c.names ∧ after.byName = c.byName := by
  induction specs generalizing c earlier with
  | nil =>
    cases added
    exact ⟨built, rfl, rfl⟩
  | cons x rest ih =>
    obtain ⟨d, _, added⟩ := bind_ok added
    cases taken : c.addMember on d with
    | none =>
      simp only [taken] at added
      exact ih built added
    | some result =>
      obtain ⟨id, next⟩ := result
      obtain ⟨_, _, rfl⟩ := Catalog.addMember_cases taken
      simp only [taken] at added
      have grown := ih (.addMember on d built taken) added
      exact grown

section

variable {id : TypeId} (built : c.Built) (known : c.lookup t.name = some id)
include built known

theorem succeeds_addType (same : c.names = m.names) :
    Succeeds (addType c t) ↔ (t.absent = false → t.WellFormed m) := by
  unfold addType
  by_cases absent : t.absent = true
  · rw [if_pos absent]
    refine iff_of_true (succeeds_ok c) fun present => ?_
    rw [absent] at present
    cases present
  · rw [if_neg absent, forall_prop_of_true (Bool.eq_false_iff.mpr absent)]
    have members : ∀ d, typeDef c t = .ok d →
        (Succeeds (addMembers t (c.define d).1 (c.define d).2 [] t.members) ↔
          ∀ earlier x later, t.members = earlier ++ x :: later → x.WellFormed m t earlier) := by
      intro d defined
      have here : c.lookup d.name = some id := name_of_typeDef defined ▸ known
      have defined := built.define d
      have kept := Catalog.names_withType built.aligned here
      have issued : id.index < (c.withType id d).types.length := by
        rw [Catalog.types_length kept]
        exact built.aligned.issued_of_lookup here
      have told : ([] : List Added).map (fun y => (y.name, y.isBridge)) =
          ([] : List MemberSpec).map fun y => (y.name, y.bridgeOf.isSome) := rfl
      rw [Catalog.define_known here] at defined ⊢
      exact succeeds_addMembers defined (kept.trans same) issued told
    rw [show Succeeds _ ↔ _ from succeeds_bind members, succeeds_typeDef built.aligned, same]
    constructor
    · intro ⟨⟨names, args⟩, members⟩
      exact ⟨names, args, members⟩
    · intro formed
      exact ⟨⟨formed.names, formed.args⟩, formed.members⟩

theorem built_of_addType {after : Catalog} (added : addType c t = .ok after) :
    after.Built ∧ after.names = c.names ∧ after.byName = c.byName := by
  unfold addType at added
  split at added
  · cases added
    exact ⟨built, rfl, rfl⟩
  · obtain ⟨d, specified, added⟩ := bind_ok added
    have here : c.lookup d.name = some id := name_of_typeDef specified ▸ known
    have defined := built.define d
    rw [Catalog.define_known here] at added defined
    obtain ⟨builtToo, names, byName⟩ := built_of_addMembers defined added
    exact ⟨builtToo, names.trans (Catalog.names_withType built.aligned here), byName⟩

end

theorem succeeds_addTypes {specs : List TypeSpec} (built : c.Built) (same : c.names = m.names)
    (known : ∀ t ∈ specs, ∃ id, c.lookup t.name = some id) :
    Succeeds (specs.foldlM addType c) ↔ ∀ t ∈ specs, t.absent = false → t.WellFormed m := by
  induction specs generalizing c with
  | nil => exact iff_of_true (succeeds_ok c) nofun
  | cons t rest ih =>
    obtain ⟨id, here⟩ := known t List.mem_cons_self
    rw [List.foldlM_cons, List.forall_mem_cons, ← succeeds_addType built here same]
    refine succeeds_bind fun after added => ?_
    obtain ⟨builtToo, names, byName⟩ := built_of_addType built here added
    apply ih builtToo (names.trans same)
    intro u there
    rw [Catalog.lookup_congr byName]
    exact known u (List.mem_cons_of_mem _ there)

/-- A model is loaded exactly if it is well-formed. -/
theorem load_succeeds_iff (m : Model) : (∃ c, m.load = .ok c) ↔ m.WellFormed := by
  have filled : (∃ c, m.load = .ok c) ↔
      m.names.Nodup ∧ Succeeds (m.types.foldlM addType (reservedFor m)) := by
    unfold Succeeds
    rw [← exists_and_left]
    exact exists_congr fun _ => load_eq_ok_iff
  have types (once : m.names.Nodup) : Succeeds (m.types.foldlM addType (reservedFor m)) ↔
      ∀ t ∈ m.types, t.absent = false → t.WellFormed m := by
    refine succeeds_addTypes (sound_reservedFor m).built (names_reservedFor once) fun t there => ?_
    obtain ⟨i, listed⟩ := List.mem_iff_getElem?.mp there
    exact ⟨_, (blank_reservedFor once listed).known⟩
  rw [filled]
  constructor
  · intro ⟨once, succeeds⟩
    obtain ⟨root, distinct⟩ := List.nodup_cons.mp once
    exact ⟨root, distinct, (types once).mp succeeds⟩
  · intro formed
    have once : m.names.Nodup := List.nodup_cons.mpr ⟨formed.root, formed.distinct⟩
    exact ⟨once, (types once).mpr formed.types⟩

end Model

end Lineage
