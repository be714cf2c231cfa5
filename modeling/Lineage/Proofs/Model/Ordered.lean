import Lineage.Model.Decode
import Mathlib.Tactic.MkIffOfInductiveProp

namespace Lineage

namespace Model

mutual

def ValueSpec.Ordered : ValueSpec → Prop
  | .record r => r.Ordered
  | .array items => ValueSpec.OrderedItems items
  | .bool _ | .int _ | .float _ | .string _ | .type _ | .enum _ _ => True
termination_by structural v => v

def ValueSpec.OrderedItems : List ValueSpec → Prop
  | [] => True
  | v :: vs => v.Ordered ∧ ValueSpec.OrderedItems vs
termination_by structural vs => vs

def RecordSpec.Ordered : RecordSpec → Prop
  | ⟨_, values⟩ => (values.map (·.1)).Pairwise (· < ·) ∧ RecordSpec.OrderedValues values
termination_by structural r => r

def RecordSpec.OrderedValues : List (String × ValueSpec) → Prop
  | [] => True
  | v :: vs => RecordSpec.OrderedValue v ∧ RecordSpec.OrderedValues vs
termination_by structural vs => vs

def RecordSpec.OrderedValue : String × ValueSpec → Prop
  | (_, v) => v.Ordered
termination_by structural v => v

end

@[mk_iff]
structure MemberSpec.Ordered (m : MemberSpec) : Prop where
  default : ∀ v, m.default = some v → v.Ordered
  records : ∀ r ∈ m.records, r.Ordered
  paramRecords : ∀ entry ∈ m.paramRecords, ∀ r ∈ entry.2, r.Ordered

@[mk_iff]
structure TypeSpec.Ordered (t : TypeSpec) : Prop where
  records : ∀ r ∈ t.records, r.Ordered
  members : ∀ m ∈ t.members, m.Ordered

end Model

/-- Whether each record of a model has its values in the order of their names, each name once, as in
    every model that is read from a text. -/
def Model.Ordered (m : Model) : Prop := ∀ t ∈ m.types, t.Ordered

namespace Json

theorem of_mapM {α β : Type} {P : β → Prop} {f : α → Option β} {as : List α} {bs : List β}
    (mapped : as.mapM f = some bs) (each : ∀ a b, f a = some b → P b) : ∀ b ∈ bs, P b := by
  induction as generalizing bs with
  | nil =>
    cases mapped
    exact nofun
  | cons a rest ih =>
    rw [List.mapM_cons] at mapped
    obtain ⟨b, first, mapped⟩ := Option.bind_eq_some_iff.mp mapped
    obtain ⟨others, later, mapped⟩ := Option.bind_eq_some_iff.mp mapped
    cases mapped
    intro x there
    rcases List.mem_cons.mp there with rfl | there
    · exact each a x first
    · exact ih later x there

theorem of_map {α β : Type} {P : β → Prop} {f : α → β} {o : Option α} {b : β}
    (found : f <$> o = some b) (each : ∀ a, o = some a → P (f a)) : P b := by
  obtain ⟨a, there, rfl⟩ := Option.map_eq_some_iff.mp found
  exact each a there

section

variable {α : Type} {P : α → Prop} {d : Decoder α} {fields : List (String × Json)} {room : Nat}
  {name : String} {default x : α}

theorem of_defaulted (found : defaulted fields room name d default = some x) (start : P default)
    (each : ∀ j y, d room j = some y → P y) : P x := by
  unfold defaulted at found
  split at found
  · exact each _ x found
  · cases found
    exact start

theorem Decoder.of_list {j : Json} {xs : List α} (found : Decoder.list d room j = some xs)
    (each : ∀ room j y, d room j = some y → P y) : ∀ y ∈ xs, P y := by
  unfold Decoder.list at found
  split at found
  · exact of_mapM found fun j y => each _ j y
  · cases found

theorem Decoder.of_nullable {j : Json} {o : Option α} (found : Decoder.nullable d room j = some o)
    (each : ∀ j y, d room j = some y → P y) : ∀ y, o = some y → P y := by
  unfold Decoder.nullable at found
  split at found
  · cases found
    exact nofun
  · apply of_map found
    rintro y read _ ⟨⟩
    exact each _ y read

end

end Json

namespace Model

open Json Json.Decoder

section

variable {κ α : Type} [DecidableEq κ] {before : κ → κ → Bool} {key : κ} {value : α}

theorem mem_putSorted {entry : κ × α} {sorted : List (κ × α)}
    (there : entry ∈ putSorted before key value sorted) : entry = (key, value) ∨ entry ∈ sorted := by
  induction sorted with
  | nil => exact .inl (List.mem_singleton.mp there)
  | cons head rest ih =>
    unfold putSorted at there
    split at there
    · rcases List.mem_cons.mp there with same | later
      · exact .inl same
      · exact .inr (List.mem_cons_of_mem _ later)
    · split at there
      · exact List.mem_cons.mp there
      · rcases List.mem_cons.mp there with same | later
        · exact .inr (List.mem_cons.mpr (.inl same))
        · exact (ih later).imp id (List.mem_cons_of_mem _)

theorem mem_sortedByKey {entry : κ × α} {entries : List (κ × α)}
    (there : entry ∈ sortedByKey before entries) : entry ∈ entries := by
  have known : ∀ e ∈ sortedByKey before entries, e ∈ entries := by
    apply List.foldlRecOn (motive := fun sorted => ∀ e ∈ sorted, e ∈ entries) entries
    · exact nofun
    · intro sorted known head listed e there
      rcases mem_putSorted there with rfl | there
      · exact listed
      · exact known e there
  exact known entry there

end

theorem putSorted_sorted {α : Type} {key : String} {value : α} {sorted : List (String × α)}
    (ordered : (sorted.map (·.1)).Pairwise (· < ·)) :
    ((putSorted (fun a b => a < b) key value sorted).map (·.1)).Pairwise (· < ·) := by
  induction sorted with
  | nil => exact List.pairwise_singleton ..
  | cons head rest ih =>
    obtain ⟨k, v⟩ := head
    obtain ⟨first, others⟩ := List.pairwise_cons.mp ordered
    unfold putSorted
    split
    · rename_i same
      exact same ▸ ordered
    · rename_i other
      split
      · rename_i less
        have less : key < k := of_decide_eq_true less
        apply List.pairwise_cons.mpr ⟨_, ordered⟩
        intro name there
        rcases List.mem_cons.mp there with rfl | there
        · exact less
        · exact String.lt_trans less (first name there)
      · rename_i notLess
        have more : k < key := Std.lt_of_le_of_ne (mt decide_eq_true notLess) other
        apply List.pairwise_cons.mpr ⟨_, ih others⟩
        intro name there
        obtain ⟨entry, listed, rfl⟩ := List.mem_map.mp there
        rcases mem_putSorted listed with rfl | listed
        · exact more
        · exact first _ (List.mem_map_of_mem listed)

theorem sortedByKey_sorted {α : Type} (entries : List (String × α)) :
    ((sortedByKey (fun a b => a < b) entries).map (·.1)).Pairwise (· < ·) :=
  List.foldlRecOn entries _ (motive := fun (sorted : List (String × α)) => (sorted.map (·.1)).Pairwise (· < ·)) .nil
    fun _ ordered _ _ => putSorted_sorted ordered

theorem orderedItems_iff {vs : List ValueSpec} : ValueSpec.OrderedItems vs ↔ ∀ v ∈ vs, v.Ordered := by
  induction vs with
  | nil => exact ⟨fun _ => nofun, fun _ => trivial⟩
  | cons v vs ih =>
    rw [ValueSpec.OrderedItems, ih, List.forall_mem_cons]

theorem orderedValues_iff {vs : List (String × ValueSpec)} :
    RecordSpec.OrderedValues vs ↔ ∀ v ∈ vs, v.2.Ordered := by
  induction vs with
  | nil => exact ⟨fun _ => nofun, fun _ => trivial⟩
  | cons v vs ih =>
    obtain ⟨name, w⟩ := v
    rw [RecordSpec.OrderedValues, ih, List.forall_mem_cons]
    rfl

theorem ordered_enum {room : Nat} {j : Json} {v : ValueSpec} (read : decodeEnum room j = some v) :
    v.Ordered := by
  unfold decodeEnum at read
  split at read
  · obtain ⟨_, _, read⟩ := Option.bind_eq_some_iff.mp read
    obtain ⟨_, _, read⟩ := Option.bind_eq_some_iff.mp read
    obtain ⟨_, _, read⟩ := Option.bind_eq_some_iff.mp read
    cases read
    trivial
  · cases read

structure OrderedAt (room : Nat) : Prop where
  value : ∀ j v, decodeValue room j = some v → v.Ordered
  items : ∀ j vs, decodeItems room j = some vs → ValueSpec.OrderedItems vs
  record : ∀ j r, decodeRecord room j = some r → r.Ordered
  values : ∀ j vs, decodeValues room j = some vs →
    (vs.map (·.1)).Pairwise (· < ·) ∧ RecordSpec.OrderedValues vs

namespace OrderedAt

variable {room : Nat} {j : Json} (inner : OrderedAt room)
include inner

theorem value_succ {v : ValueSpec} (read : decodeValue (room + 1) j = some v) : v.Ordered := by
  unfold decodeValue at read
  split at read
  · rename_i same
    cases same
    obtain ⟨kind, _, read⟩ := Option.bind_eq_some_iff.mp read
    split at read
    case h_6 => exact ordered_enum read
    case h_7 => exact of_map read fun r found => inner.record _ r found
    case h_8 => exact of_map read fun vs found => inner.items _ vs found
    case h_9 => cases read
    all_goals exact of_map read fun _ _ => trivial
  · cases read

theorem items_succ {vs : List ValueSpec} (read : decodeItems (room + 1) j = some vs) :
    ValueSpec.OrderedItems vs := by
  unfold decodeItems at read
  split at read
  · rename_i same
    cases same
    exact orderedItems_iff.mpr (of_mapM read inner.value)
  · cases read

theorem record_succ {r : RecordSpec} (read : decodeRecord (room + 1) j = some r) : r.Ordered := by
  unfold decodeRecord at read
  obtain ⟨fields, _, read⟩ := Option.bind_eq_some_iff.mp read
  obtain ⟨kind, _, read⟩ := Option.bind_eq_some_iff.mp read
  split at read
  · cases read
    exact ⟨.nil, trivial⟩
  · exact of_map read fun vs found => inner.values _ vs found

theorem values_succ {vs : List (String × ValueSpec)} (read : decodeValues (room + 1) j = some vs) :
    (vs.map (·.1)).Pairwise (· < ·) ∧ RecordSpec.OrderedValues vs := by
  unfold decodeValues at read
  split at read
  · rename_i same
    cases same
    obtain ⟨written, _, read⟩ := Option.bind_eq_some_iff.mp read
    obtain ⟨found, mapped, read⟩ := Option.bind_eq_some_iff.mp read
    cases read
    have each : ∀ entry ∈ found, entry.2.Ordered := by
      apply of_mapM (P := fun entry => entry.2.Ordered) mapped
      intro field entry taken
      obtain ⟨v, decoded, same⟩ := Option.bind_eq_some_iff.mp taken
      cases same
      exact inner.value _ v decoded
    exact ⟨sortedByKey_sorted found,
      orderedValues_iff.mpr fun entry there => each entry (mem_sortedByKey there)⟩
  · cases read

end OrderedAt

theorem orderedAt (room : Nat) : OrderedAt room := by
  induction room with
  | zero => exact ⟨fun j _ => nofun, fun j _ => nofun, fun j _ => nofun, fun j _ => nofun⟩
  | succ room inner =>
    exact {
      value := fun _ _ => inner.value_succ
      items := fun _ _ => inner.items_succ
      record := fun _ _ => inner.record_succ
      values := fun _ _ => inner.values_succ }

theorem ordered_records {room : Nat} {j : Json} {rs : List RecordSpec}
    (read : list decodeRecord room j = some rs) : ∀ r ∈ rs, r.Ordered :=
  of_list read fun room => (orderedAt room).record

theorem ordered_paramRecords {room : Nat} {j : Json} {entries : List (Nat × List RecordSpec)}
    (read : decodeParamRecords room j = some entries) :
    ∀ entry ∈ entries, ∀ r ∈ entry.2, r.Ordered := by
  unfold decodeParamRecords at read
  split at read
  · obtain ⟨found, mapped, read⟩ := Option.bind_eq_some_iff.mp read
    cases read
    have each : ∀ entry ∈ found, ∀ r ∈ entry.2, r.Ordered := by
      apply of_mapM (P := fun entry => ∀ r ∈ entry.2, r.Ordered) mapped
      intro field entry taken
      obtain ⟨index, _, taken⟩ := Option.bind_eq_some_iff.mp taken
      obtain ⟨rs, inner, same⟩ := Option.bind_eq_some_iff.mp taken
      cases same
      exact ordered_records inner
    exact fun entry there => each entry (mem_sortedByKey there)
  · cases read

theorem ordered_member {room : Nat} {j : Json} {m : MemberSpec} (read : decodeMember room j = some m) :
    m.Ordered := by
  unfold decodeMember at read
  split at read
  · obtain ⟨_, _, read⟩ := Option.bind_eq_some_iff.mp read
    obtain ⟨_, _, read⟩ := Option.bind_eq_some_iff.mp read
    obtain ⟨_, _, read⟩ := Option.bind_eq_some_iff.mp read
    obtain ⟨_, _, read⟩ := Option.bind_eq_some_iff.mp read
    obtain ⟨_, _, read⟩ := Option.bind_eq_some_iff.mp read
    obtain ⟨default, onDefault, read⟩ := Option.bind_eq_some_iff.mp read
    obtain ⟨_, _, read⟩ := Option.bind_eq_some_iff.mp read
    obtain ⟨records, onRecords, read⟩ := Option.bind_eq_some_iff.mp read
    obtain ⟨params, onParams, read⟩ := Option.bind_eq_some_iff.mp read
    cases read
    refine ⟨?_, ?_, ?_⟩
    · apply of_defaulted (P := fun o => ∀ v, o = some v → v.Ordered) onDefault nofun
      exact fun j o found => of_nullable found (orderedAt _).value
    · apply of_defaulted (P := fun rs => ∀ r ∈ rs, r.Ordered) onRecords nofun
      exact fun j rs => ordered_records
    · apply of_defaulted (P := fun es => ∀ e ∈ es, ∀ r ∈ e.2, r.Ordered) onParams nofun
      exact fun j es => ordered_paramRecords
  · cases read

theorem ordered_type {room : Nat} {j : Json} {t : TypeSpec} (read : decodeType room j = some t) :
    t.Ordered := by
  unfold decodeType at read
  split at read
  · obtain ⟨_, _, read⟩ := Option.bind_eq_some_iff.mp read
    obtain ⟨_, _, read⟩ := Option.bind_eq_some_iff.mp read
    obtain ⟨_, _, read⟩ := Option.bind_eq_some_iff.mp read
    obtain ⟨_, _, read⟩ := Option.bind_eq_some_iff.mp read
    obtain ⟨_, _, read⟩ := Option.bind_eq_some_iff.mp read
    obtain ⟨_, _, read⟩ := Option.bind_eq_some_iff.mp read
    obtain ⟨_, _, read⟩ := Option.bind_eq_some_iff.mp read
    obtain ⟨_, _, read⟩ := Option.bind_eq_some_iff.mp read
    obtain ⟨_, _, read⟩ := Option.bind_eq_some_iff.mp read
    obtain ⟨records, onRecords, read⟩ := Option.bind_eq_some_iff.mp read
    obtain ⟨members, onMembers, read⟩ := Option.bind_eq_some_iff.mp read
    cases read
    constructor
    · apply of_defaulted (P := fun rs => ∀ r ∈ rs, r.Ordered) onRecords nofun
      exact fun j rs => ordered_records
    · apply of_defaulted (P := fun ms => ∀ m ∈ ms, m.Ordered) onMembers nofun
      exact fun j ms found => of_list found fun _ _ _ => ordered_member
  · cases read

/-- Every model that is read from a text has its values in order, whatever order they are written in. -/
theorem ordered_of_ofText? {text : String} {m : Model} (read : ofText? text = some m) : m.Ordered := by
  obtain ⟨j, _, read⟩ := Option.bind_eq_some_iff.mp read
  unfold ofJson? decode at read
  obtain ⟨fields, _, read⟩ := Option.bind_eq_some_iff.mp read
  obtain ⟨types, onTypes, read⟩ := Option.bind_eq_some_iff.mp read
  cases read
  apply of_defaulted (P := fun ts => ∀ t ∈ ts, t.Ordered) onTypes nofun
  exact fun j ts found => of_list found fun _ _ _ => ordered_type

end Model

end Lineage
