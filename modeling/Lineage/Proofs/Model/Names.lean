import Lineage.Element.Name
import Lineage.Model.Load
import Lineage.Proofs.Catalog.Aligned

namespace Lineage

namespace Catalog

variable {c : Catalog} {id : TypeId} {name : String}

theorem nameOf_of_found {decl : TypeDecl} (found : c.type? id = some decl) :
    c.nameOf id = decl.name := by
  rw [nameOf, found]

theorem Built.lookup_nameOf {decl : TypeDecl} (built : c.Built) (found : c.type? id = some decl) :
    c.lookup (c.nameOf id) = some id := by
  rw [nameOf_of_found found]
  exact (built.aligned.lookup_eq_some_iff built.distinct).mpr (name_of_found found)

theorem types_declareAbsent_new (new : c.lookup name = none) :
    (c.declareAbsent name).2.types = c.types ++ [.reserved ⟨c.types.length⟩ name] := by
  have unknown : c.lookup (TypeDecl.reserved root name).name = none := new
  rw [declareAbsent, new]
  show (c.insert _).2.types = _
  rw [insert, unknown]
  rfl

end Catalog

namespace Model

variable {c d r : Catalog}

def placeholders (count : Nat) : List TypeSpec → List TypeDecl
  | [] => []
  | t :: rest => .reserved ⟨count⟩ t.name :: placeholders (count + 1) rest

theorem map_name_placeholders (count : Nat) (specs : List TypeSpec) :
    (placeholders count specs).map (·.name) = specs.map (·.name) := by
  induction specs generalizing count with
  | nil => rfl
  | cons t rest ih =>
    simp only [placeholders, List.map_cons, ih]
    rfl

theorem getElem?_placeholders (count : Nat) (specs : List TypeSpec) (i : Nat) :
    (placeholders count specs)[i]? = specs[i]?.map fun t => .reserved ⟨count + i⟩ t.name := by
  induction specs generalizing count i with
  | nil => rfl
  | cons t rest ih =>
    cases i with
    | zero => rfl
    | succ i =>
      simp only [placeholders, List.getElem?_cons_succ, ih]
      congr 2
      funext t
      congr 2
      omega

def reserveAll (c : Catalog) : List TypeSpec → Catalog
  | [] => c
  | t :: rest => reserveAll (c.declareAbsent t.name).2 rest

theorem reserveAll_built {specs : List TypeSpec} (built : c.Built) : (reserveAll c specs).Built := by
  induction specs generalizing c with
  | nil => exact built
  | cons t rest ih => exact ih (built.declareAbsent t.name)

theorem members_reserveAll (c : Catalog) (specs : List TypeSpec) :
    (reserveAll c specs).members = c.members := by
  induction specs generalizing c with
  | nil => rfl
  | cons t rest ih => exact (ih _).trans (Catalog.declareAbsent_stored t.name).members

theorem records_reserveAll (c : Catalog) (specs : List TypeSpec) :
    (reserveAll c specs).records = c.records := by
  induction specs generalizing c with
  | nil => rfl
  | cons t rest ih => exact (ih _).trans (Catalog.declareAbsent_stored t.name).records

/-- A name that is not known yet comes after those that are. -/
theorem reserved_once {t : TypeSpec} {rest : List TypeSpec} (built : c.Built)
    (new : c.lookup t.name = none) :
    ((c.declareAbsent t.name).2.names ++ rest.map (·.name)).Nodup ↔
      (c.names ++ (t :: rest).map (·.name)).Nodup := by
  have stored := Catalog.declareAbsent_stored (c := c) t.name
  rw [stored.names built.aligned, new, if_neg nofun, List.append_assoc]
  rfl

theorem types_reserveAll {specs : List TypeSpec} (built : c.Built)
    (once : (c.names ++ specs.map (·.name)).Nodup) :
    (reserveAll c specs).types = c.types ++ placeholders c.types.length specs := by
  induction specs generalizing c with
  | nil => exact (List.append_nil _).symm
  | cons t rest ih =>
    have new : c.lookup t.name = none := by
      rw [built.aligned.lookup_eq_none_iff]
      exact fun known => (List.nodup_append.mp once).2.2 _ known _ (List.mem_cons_self ..) rfl
    rw [reserveAll, ih (built.declareAbsent t.name) ((reserved_once built new).mpr once),
      Catalog.types_declareAbsent_new new]
    simp only [List.append_assoc, List.length_append, List.length_singleton,
      List.singleton_append, placeholders]

/-- Every name becomes known once, or there is an error. -/
theorem reserve_eq_ok_iff (specs : List TypeSpec) (built : c.Built) :
    reserve c specs = .ok r ↔
      (c.names ++ specs.map (·.name)).Nodup ∧ r = reserveAll c specs := by
  induction specs generalizing c with
  | nil =>
    simp only [reserve, reserveAll, List.map_nil, List.append_nil, built.distinct, true_and]
    exact ⟨fun same => (Except.ok.inj same).symm, fun same => same ▸ rfl⟩
  | cons t rest ih =>
    unfold reserve
    cases known : c.lookup t.name with
    | some id =>
      rw [if_pos Option.isSome_some]
      constructor
      · nofun
      · intro ⟨once, _⟩
        have there := List.mem_of_getElem? (built.aligned.lookup_sound known)
        exact absurd rfl ((List.nodup_append.mp once).2.2 _ there _ (List.mem_cons_self ..))
    | none => rw [if_neg nofun, ih (built.declareAbsent t.name), reserved_once built known, reserveAll]

section

-- What a specification means depends on the names of the types that there are, and on nothing else
-- of a catalog.

theorem resolve_congr (same : c.lookup = d.lookup) : resolve c = resolve d := by
  funext context name
  unfold resolve
  rw [same]

theorem typeArg_congr (same : c.lookup = d.lookup) : typeArg c = typeArg d := by
  funext owner arg
  unfold typeArg
  rw [resolve_congr same]

theorem superRef_congr (same : c.lookup = d.lookup) : superRef c = superRef d := by
  funext owner s
  unfold superRef
  rw [resolve_congr same, typeArg_congr same]

theorem typeParam_congr (same : c.lookup = d.lookup) : typeParam c = typeParam d := by
  funext owner p
  unfold typeParam
  rw [resolve_congr same]

mutual

theorem value_congr (same : c.lookup = d.lookup) (context : String) :
    ∀ v, value c context v = value d context v
  | .bool _ | .int _ | .float _ | .string _ => rfl
  | .type name => by rw [value, value, resolve_congr same]
  | .enum name constant => by rw [value, value, resolve_congr same]
  | .record r => by rw [value, value, record_congr same context r]
  | .array items => by rw [value, value, valueItems_congr same context items]

theorem valueItems_congr (same : c.lookup = d.lookup) (context : String) :
    ∀ vs, valueItems c context vs = valueItems d context vs
  | [] => rfl
  | v :: vs => by
    rw [valueItems, valueItems, value_congr same context v, valueItems_congr same context vs]

theorem record_congr (same : c.lookup = d.lookup) (context : String) :
    ∀ r, record c context r = record d context r
  | ⟨kind, values⟩ => by
    rw [record, record, resolve_congr same, recordValues_congr same context values]

theorem recordValues_congr (same : c.lookup = d.lookup) (context : String) :
    ∀ vs, recordValues c context vs = recordValues d context vs
  | [] => rfl
  | v :: vs => by
    rw [recordValues, recordValues, recordValue_congr same context v,
      recordValues_congr same context vs]

theorem recordValue_congr (same : c.lookup = d.lookup) (context : String) :
    ∀ v, recordValue c context v = recordValue d context v
  | (name, v) => by rw [recordValue, recordValue, value_congr same context v]

end

theorem paramRecords_congr (same : c.lookup = d.lookup) (context : String)
    (specs : List (Nat × List RecordSpec)) :
    paramRecords c context specs = paramRecords d context specs := by
  induction specs with
  | nil => rfl
  | cons spec rest ih => rw [paramRecords, paramRecords, funext (record_congr same context), ih]

theorem parse_congr (same : c.lookup = d.lookup) (text : List Char) :
    ValueType.parse c text = ValueType.parse d text := by
  induction text using ValueType.parse.induct with
  | case1 text item array shorter ih =>
    rw [ValueType.parse_array array, ValueType.parse_array array, ih]
  | case2 text base =>
    rw [ValueType.parse_base base, ValueType.parse_base base]
    unfold ValueType.parseBase
    rw [same]

theorem typeDef_congr (same : c.lookup = d.lookup) (t : TypeSpec) : typeDef c t = typeDef d t := by
  unfold typeDef
  rw [typeParam_congr same, superRef_congr same, resolve_congr same,
    funext (record_congr same t.name)]

theorem memberDef_congr (same : c.lookup = d.lookup) (owner : TypeSpec) (earlier : List Added)
    (m : MemberSpec) : memberDef c owner earlier m = memberDef d owner earlier m := by
  have returns : ValueType.ofText c = ValueType.ofText d := by
    funext text
    exact parse_congr same text.toList
  unfold memberDef
  simp only [typeArg_congr same, returns, funext (value_congr same _), funext (record_congr same _),
    paramRecords_congr same]

end

end Model

end Lineage
