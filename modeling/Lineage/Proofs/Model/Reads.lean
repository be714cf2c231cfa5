import Lineage.Proofs.Model.Loaded
import Lineage.Proofs.Model.Ordered
import Lineage.Proofs.ValueType.Grammar

namespace Lineage

def Catalog.Calls (c : Catalog) (name : String) (id : TypeId) : Prop := c.names[id.index]? = some name

namespace Model

def MemberSpec.recordsAt (m : MemberSpec) (index : Nat) : List RecordSpec :=
  (m.paramRecords.filter (·.1 = index)).flatMap (·.2)

inductive ReadsArg (c : Catalog) (owner : TypeSpec) (arg : String) : TypeArg → Prop
  | var : (∃ p ∈ owner.params, p.name = arg) → ReadsArg c owner arg (.var arg)
  | type {id : TypeId} : (∀ p ∈ owner.params, p.name ≠ arg) → c.Calls arg id →
    ReadsArg c owner arg (.concrete id)

structure ReadsSuper (c : Catalog) (owner : TypeSpec) (s : SuperSpec) (r : SuperRef) : Prop where
  target : c.Calls s.name r.target
  args : List.Forall₂ (ReadsArg c owner) s.args r.args

structure ReadsParam (c : Catalog) (p : ParamSpec) (x : TypeParam) : Prop where
  name : x.name = p.name
  bound : Option.Rel c.Calls p.bound x.bound

mutual

inductive ReadsValue (c : Catalog) : ValueSpec → Value → Prop
  | bool (b : Bool) : ReadsValue c (.bool b) (.bool b)
  | int (i : Int) : ReadsValue c (.int i) (.int i)
  | float (x : Float) : ReadsValue c (.float x) (.float x)
  | string (s : String) : ReadsValue c (.string s) (.string s)
  | type {name : String} {id : TypeId} : c.Calls name id → ReadsValue c (.type name) (.type id)
  | enum {name : String} {id : TypeId} (constant : String) : c.Calls name id →
    ReadsValue c (.enum name constant) (.enum id constant)
  | record {kind : String} {id : TypeId} {specs : List (String × ValueSpec)}
    {values : List (String × Value)} : c.Calls kind id → (values.map (·.1)).Pairwise (· < ·) →
    List.Forall₂ (ReadsEntry c) specs values → ReadsValue c (.record ⟨kind, specs⟩) (.record ⟨id, values⟩)
  | array {specs : List ValueSpec} {values : List Value} : List.Forall₂ (ReadsValue c) specs values →
    ReadsValue c (.array specs) (.array values)

inductive ReadsEntry (c : Catalog) : String × ValueSpec → String × Value → Prop
  | named (name : String) {v : ValueSpec} {w : Value} : ReadsValue c v w →
    ReadsEntry c (name, v) (name, w)

end

def ReadsRecord (c : Catalog) (r : RecordSpec) (s : Record) : Prop :=
  ReadsValue c (.record r) (.record s)

inductive ReadsReturn (c : Catalog) : List Char → ValueType → Prop
  | array {text item : List Char} {inner : ValueType} :
    Text.dropEnding? ['[', ']'] (Text.trim text) = some item → ReadsReturn c item inner →
    ReadsReturn c text (.array inner)
  | keyword {text : List Char} {returns : ValueType} :
    Text.dropEnding? ['[', ']'] (Text.trim text) = none →
    (String.ofList (Text.trim text), returns) ∈ ValueType.keywords → ReadsReturn c text returns
  | enum {text name : List Char} {id : TypeId} :
    Text.dropEnding? ['[', ']'] (Text.trim text) = none → Text.trim text = "enum:".toList ++ name →
    c.Calls (String.ofList name) id → ReadsReturn c text (.enum id)
  | record {text name : List Char} {id : TypeId} :
    Text.dropEnding? ['[', ']'] (Text.trim text) = none → Text.trim text = "record:".toList ++ name →
    c.Calls (String.ofList name) id → ReadsReturn c text (.record id)

variable {c : Catalog} {owner : TypeSpec}

theorem calls_of_resolve (aligned : c.Aligned) {context name : String} {id : TypeId}
    (resolved : resolve c context name = .ok id) : c.Calls name id := by
  unfold resolve at resolved
  split at resolved
  · cases resolved
    exact aligned.lookup_sound ‹_›
  · cases resolved

theorem reads_typeArg (aligned : c.Aligned) {arg : String} {x : TypeArg}
    (read : typeArg c owner arg = .ok x) : ReadsArg c owner arg x := by
  unfold typeArg at read
  by_cases named : owner.params.any (·.name = arg) = true
  · rw [if_pos named] at read
    cases read
    obtain ⟨p, there, same⟩ := List.any_eq_true.mp named
    exact .var ⟨p, there, of_decide_eq_true same⟩
  · rw [if_neg named] at read
    obtain ⟨id, resolved, rfl⟩ := map_ok read
    apply ReadsArg.type _ (calls_of_resolve aligned resolved)
    intro p there same
    exact named (List.any_eq_true.mpr ⟨p, there, decide_eq_true same⟩)

theorem reads_superRef (aligned : c.Aligned) {s : SuperSpec} {r : SuperRef}
    (read : superRef c owner s = .ok r) : ReadsSuper c owner s r := by
  obtain ⟨id, resolved, read⟩ := bind_ok read
  obtain ⟨args, mapped, read⟩ := bind_ok read
  cases read
  exact ⟨calls_of_resolve aligned resolved, mapM_forall₂ mapped fun _ _ _ => reads_typeArg aligned⟩

theorem reads_typeParam (aligned : c.Aligned) {p : ParamSpec} {x : TypeParam}
    (read : typeParam c owner p = .ok x) : ReadsParam c p x := by
  obtain ⟨bound, mapped, read⟩ := bind_ok read
  cases read
  exact ⟨rfl, mapM_rel mapped fun _ _ _ => calls_of_resolve aligned⟩

theorem setNamed_new {α : Type} {name : String} {v : α} {values : List (String × α)}
    (new : name ∉ values.map (·.1)) : setNamed name v values = values ++ [(name, v)] := by
  induction values with
  | nil => rfl
  | cons entry rest ih =>
    rw [List.map_cons, List.mem_cons, not_or] at new
    unfold setNamed
    rw [if_neg fun same => new.1 same.symm, ih new.2]
    rfl

/-- Setting values under new names puts them at the end, in their order. -/
theorem setAll_new {kind : TypeId} {before values : List (String × Value)}
    (once : ((before ++ values).map (·.1)).Nodup) :
    values.foldl (fun r (name, v) => r.set name v) (⟨kind, before⟩ : Record) =
      ⟨kind, before ++ values⟩ := by
  induction values generalizing before with
  | nil => rw [List.append_nil, List.foldl_nil]
  | cons entry rest ih =>
    obtain ⟨name, v⟩ := entry
    have new : name ∉ before.map (·.1) := by
      rw [List.map_append, List.nodup_append] at once
      exact fun there => once.2.2 name there name (List.mem_cons_self ..) rfl
    have step : (⟨kind, before⟩ : Record).set name v = ⟨kind, before ++ [(name, v)]⟩ :=
      congrArg (Record.mk kind) (setNamed_new new)
    have onceRest : (((before ++ [(name, v)]) ++ rest).map (·.1)).Nodup := by
      rw [List.append_assoc]
      exact once
    show List.foldl _ ((⟨kind, before⟩ : Record).set name v) rest = _
    rw [step, ih onceRest, List.append_assoc]
    rfl

theorem names_of_entries {specs : List (String × ValueSpec)} {values : List (String × Value)}
    (read : List.Forall₂ (ReadsEntry c) specs values) : values.map (·.1) = specs.map (·.1) := by
  induction read with
  | nil => rfl
  | cons head _ ih =>
    cases head with
    | named name _ => rw [List.map_cons, List.map_cons, ih]

mutual

theorem reads_value (aligned : c.Aligned) (context : String) :
    ∀ (v : ValueSpec) (w : Value), v.Ordered → value c context v = .ok w → ReadsValue c v w
  | .bool b, _, _, read => by cases read; exact .bool b
  | .int i, _, _, read => by cases read; exact .int i
  | .float x, _, _, read => by cases read; exact .float x
  | .string s, _, _, read => by cases read; exact .string s
  | .type name, w, _, read => by
    obtain ⟨id, resolved, read⟩ := bind_ok read
    cases read
    exact .type (calls_of_resolve aligned resolved)
  | .enum name constant, w, _, read => by
    obtain ⟨id, resolved, read⟩ := bind_ok read
    cases read
    exact .enum constant (calls_of_resolve aligned resolved)
  | .record r, w, ordered, read => by
    obtain ⟨s, found, read⟩ := bind_ok read
    cases read
    exact reads_record aligned context r s ordered found
  | .array items, w, ordered, read => by
    obtain ⟨values, found, read⟩ := bind_ok read
    cases read
    exact .array (reads_items aligned context items values ordered found)

theorem reads_items (aligned : c.Aligned) (context : String) :
    ∀ (vs : List ValueSpec) (ws : List Value),
    ValueSpec.OrderedItems vs → valueItems c context vs = .ok ws → List.Forall₂ (ReadsValue c) vs ws
  | [], _, _, read => by cases read; exact .nil
  | v :: vs, ws, ordered, read => by
    obtain ⟨first, found, read⟩ := bind_ok read
    obtain ⟨others, later, read⟩ := bind_ok read
    cases read
    apply List.Forall₂.cons (reads_value aligned context v first ordered.1 found)
    exact reads_items aligned context vs others ordered.2 later

theorem reads_record (aligned : c.Aligned) (context : String) :
    ∀ (r : RecordSpec) (s : Record), r.Ordered → record c context r = .ok s → ReadsRecord c r s
  | ⟨kind, specs⟩, s, ordered, read => by
    obtain ⟨id, resolved, read⟩ := bind_ok read
    obtain ⟨values, found, read⟩ := bind_ok read
    cases read
    have entries := reads_values aligned context specs values ordered.2 found
    have names := names_of_entries entries
    have sorted : (values.map (·.1)).Pairwise (· < ·) := names ▸ ordered.1
    have once : ((([] : List (String × Value)) ++ values).map (·.1)).Nodup := sorted.nodup
    rw [Record.ofKind, setAll_new once]
    exact .record (calls_of_resolve aligned resolved) sorted entries

theorem reads_values (aligned : c.Aligned) (context : String) :
    ∀ (vs : List (String × ValueSpec)) (ws : List (String × Value)), RecordSpec.OrderedValues vs →
    recordValues c context vs = .ok ws → List.Forall₂ (ReadsEntry c) vs ws
  | [], _, _, read => by cases read; exact .nil
  | v :: vs, ws, ordered, read => by
    obtain ⟨first, found, read⟩ := bind_ok read
    obtain ⟨others, later, read⟩ := bind_ok read
    cases read
    apply List.Forall₂.cons (reads_entry aligned context v first ordered.1 found)
    exact reads_values aligned context vs others ordered.2 later

theorem reads_entry (aligned : c.Aligned) (context : String) :
    ∀ (v : String × ValueSpec) (w : String × Value), RecordSpec.OrderedValue v →
    recordValue c context v = .ok w → ReadsEntry c v w
  | (name, v), w, ordered, read => by
    obtain ⟨value, found, read⟩ := bind_ok read
    cases read
    exact .named name (reads_value aligned context v value ordered found)

end

theorem reads_records (aligned : c.Aligned) {context : String} {specs : List RecordSpec}
    {records : List Record}
    (ordered : ∀ r ∈ specs, r.Ordered) (read : specs.mapM (record c context) = .ok records) :
    List.Forall₂ (ReadsRecord c) specs records :=
  mapM_forall₂ read fun r there s found => reads_record aligned context r s (ordered r there) found

theorem reads_paramRecords (aligned : c.Aligned) {context : String}
    {specs : List (Nat × List RecordSpec)}
    {records : List (Nat × Record)} (ordered : ∀ entry ∈ specs, ∀ r ∈ entry.2, r.Ordered)
    (read : paramRecords c context specs = .ok records) (index : Nat) :
    List.Forall₂ (ReadsRecord c) ((specs.filter (·.1 = index)).flatMap (·.2))
      ((records.filter (·.1 = index)).map (·.2)) := by
  induction specs generalizing records with
  | nil =>
    cases read
    exact .nil
  | cons spec rest ih =>
    obtain ⟨position, own⟩ := spec
    obtain ⟨first, found, read⟩ := bind_ok read
    obtain ⟨others, later, read⟩ := bind_ok read
    cases read
    have here := reads_records aligned (ordered _ (List.mem_cons_self ..)) found
    have further := ih (fun entry there => ordered entry (List.mem_cons_of_mem _ there)) later
    rw [List.filter_append, List.map_append, List.filter_map, List.filter_cons]
    by_cases same : position = index
    · simpa [same, Function.comp_def] using List.rel_append here further
    · simpa [same, Function.comp_def] using further

theorem reads_of_denotes (aligned : c.Aligned) {base text : List Char} {returns : ValueType}
    (bare : Text.dropEnding? ['[', ']'] (Text.trim text) = none) (whole : Text.trim text = base)
    (denotes : ValueType.Denotes c base returns) : ReadsReturn c text returns := by
  cases denotes with
  | @keyword word _ listed =>
    rw [← String.ofList_toList (s := word), ← whole] at listed
    exact .keyword bare listed
  | @named mark name kind id listed known =>
    have calls : c.Calls (String.ofList name.toList) id := by
      rw [String.ofList_toList]
      exact aligned.lookup_sound known
    rcases ValueType.mark_cases listed with ⟨rfl, rfl⟩ | ⟨rfl, rfl⟩
    · exact .enum bare whole calls
    · exact .record bare whole calls

theorem reads_parse (aligned : c.Aligned) {text : List Char} {returns : ValueType}
    (read : ValueType.parse c text = .ok returns) : ReadsReturn c text returns := by
  induction text using ValueType.parse.induct generalizing returns with
  | case1 text item array shorter ih =>
    rw [ValueType.parse_array array] at read
    obtain ⟨inner, found, rfl⟩ := map_ok read
    exact .array array (ih found)
  | case2 text base =>
    rw [ValueType.parse_base base] at read
    exact reads_of_denotes aligned base rfl (ValueType.parseBase_eq_ok_iff.mp read)

end Model

end Lineage
