import Lineage.Scan.Types

namespace Lineage

def tally (kind : TypeId) (records : List Record) : Nat := records.countP (·.kind = kind)

theorem tally_append (kind : TypeId) (first rest : List Record) :
    tally kind (first ++ rest) = tally kind first + tally kind rest :=
  List.countP_append

theorem tally_cons (kind : TypeId) (r : Record) (rest : List Record) :
    tally kind (r :: rest) = tally kind [r] + tally kind rest :=
  tally_append kind [r] rest

theorem tally_single (kind : TypeId) (r : Record) :
    tally kind [r] = if r.kind = kind then 1 else 0 := by
  rw [tally, List.countP_singleton]
  simp only [decide_eq_true_eq]

theorem tally_pos {kind : TypeId} {records : List Record} :
    0 < tally kind records ↔ ∃ r ∈ records, r.kind = kind := by
  simp only [tally, List.countP_pos_iff, decide_eq_true_eq]

/-- The records that find a claim when a number of each kind is claimed and a record uses up one. -/
def allotted (left : TypeId → Nat) : List Record → List Record
  | [] => []
  | r :: rest =>
    let later := allotted (fun kind => left kind - tally kind [r]) rest
    if left r.kind = 0 then later else r :: later

theorem allotted_append (left : TypeId → Nat) (first rest : List Record) :
    allotted left (first ++ rest) =
      allotted left first ++ allotted (fun kind => left kind - tally kind first) rest := by
  induction first generalizing left with
  | nil => rfl
  | cons r first ih =>
    have used : (fun kind => left kind - tally kind [r] - tally kind first) =
        fun kind => left kind - tally kind (r :: first) := by
      funext kind
      rw [tally_cons kind r first, Nat.sub_add_eq]
    rw [List.cons_append, allotted, allotted, ih, used]
    split
    · rfl
    · rfl

theorem allotted_nothing {left : TypeId → Nat} (exhausted : ∀ kind, left kind = 0)
    (records : List Record) : allotted left records = [] := by
  induction records generalizing left with
  | nil => rfl
  | cons r rest ih =>
    rw [allotted, if_pos (exhausted r.kind)]
    exact ih fun kind => by rw [exhausted kind, Nat.zero_sub]

theorem tally_allotted (kind : TypeId) (left : TypeId → Nat) (records : List Record) :
    tally kind (allotted left records) = min (left kind) (tally kind records) := by
  induction records generalizing left with
  | nil => exact (Nat.min_zero _).symm
  | cons r rest ih =>
    rw [allotted, tally_cons kind r rest, tally_single]
    by_cases same : r.kind = kind
    · subst same
      split
      · rename_i exhausted
        rw [ih, tally_single]
        omega
      · rw [tally_cons, ih, tally_single]
        simp only [↓reduceIte]
        omega
    · split
      · rw [ih, tally_single, if_neg same]
        omega
      · rw [tally_cons, ih, tally_single, if_neg same]
        omega

theorem allotted_sublist (left : TypeId → Nat) (records : List Record) :
    (allotted left records).Sublist records := by
  induction records generalizing left with
  | nil => exact .slnil
  | cons r rest ih =>
    rw [allotted]
    split
    · exact (ih _).cons r
    · exact (ih _).cons_cons r

theorem mem_of_allotted {left : TypeId → Nat} {records : List Record} {r : Record}
    (shown : r ∈ allotted left records) : r ∈ records :=
  (allotted_sublist left records).subset shown

theorem claimed_of_allotted {left : TypeId → Nat} {records : List Record} {r : Record}
    (shown : r ∈ allotted left records) : 0 < left r.kind := by
  have some : 0 < tally r.kind (allotted left records) := tally_pos.mpr ⟨r, shown, rfl⟩
  rw [tally_allotted] at some
  exact (Nat.lt_min.mp some).1

theorem allotted_of_covered {left : TypeId → Nat} {records : List Record}
    (covered : ∀ kind, tally kind records ≤ left kind) : allotted left records = records := by
  induction records generalizing left with
  | nil => rfl
  | cons r rest ih =>
    have here := covered r.kind
    rw [tally_cons, tally_single, if_pos rfl] at here
    rw [allotted, if_neg (by omega), ih]
    intro kind
    have there := covered kind
    rw [tally_cons] at there
    omega

namespace Scan.Claims

variable {c : Claims} {kind : TypeId} {slots after : List Slot}

def left (c : Claims) (kind : TypeId) : Nat := tally kind (c.slots.filterMap id)

def Counted (c : Claims) : Prop := c.remaining = (c.slots.filterMap id).length

theorem filterMap_some (records : List Record) : (records.map some).filterMap id = records := by
  rw [List.filterMap_map]
  exact List.filterMap_some

theorem left_ofRecords (visible : List Record) :
    (ofRecords visible).left = fun kind => tally kind visible := by
  funext kind
  rw [left, ofRecords, filterMap_some]

theorem counted_ofRecords (visible : List Record) : (ofRecords visible).Counted := by
  rw [Counted, ofRecords, filterMap_some]

theorem Counted.nothing (counted : c.Counted) (exhausted : c.remaining = 0) : c.left kind = 0 := by
  rw [Counted, exhausted] at counted
  rw [left, List.length_eq_zero_iff.mp counted.symm]
  rfl

theorem takeFirst_none (refused : takeFirst kind slots = none) :
    tally kind (slots.filterMap id) = 0 := by
  induction slots with
  | nil => rfl
  | cons slot rest ih =>
    cases slot with
    | none =>
      rw [takeFirst, Option.map_eq_none_iff] at refused
      exact ih refused
    | some r =>
      rw [takeFirst] at refused
      split at refused
      · cases refused
      · rename_i other
        rw [Option.map_eq_none_iff] at refused
        show tally kind (r :: rest.filterMap id) = 0
        rw [tally_cons, tally_single, if_neg other, ih refused]

theorem takeFirst_some (taken : takeFirst kind slots = some after) :
    ∃ before r later, r.kind = kind ∧ slots.filterMap id = before ++ r :: later ∧
      after.filterMap id = before ++ later := by
  induction slots generalizing after with
  | nil => cases taken
  | cons slot rest ih =>
    cases slot with
    | none =>
      rw [takeFirst, Option.map_eq_some_iff] at taken
      obtain ⟨further, inRest, rfl⟩ := taken
      obtain ⟨before, r, later, parts⟩ := ih inRest
      exact ⟨before, r, later, parts⟩
    | some first =>
      rw [takeFirst] at taken
      split at taken
      · rename_i same
        cases taken
        exact ⟨[], first, rest.filterMap id, same, rfl, rfl⟩
      · rw [Option.map_eq_some_iff] at taken
        obtain ⟨further, inRest, rfl⟩ := taken
        obtain ⟨before, r, later, same, split, joined⟩ := ih inRest
        refine ⟨first :: before, r, later, same, ?_, ?_⟩
        · show first :: rest.filterMap id = _
          rw [split]
          rfl
        · show first :: further.filterMap id = _
          rw [joined]
          rfl

theorem remaining_pos (counted : c.Counted) (taken : takeFirst kind c.slots = some after) :
    0 < c.remaining := by
  obtain ⟨before, r, later, _, split, _⟩ := takeFirst_some taken
  rw [counted, split, List.length_append, List.length_cons]
  omega

theorem claim_refused {r : Record} (exhausted : c.left r.kind = 0) :
    c.claim (some r) = (none, c) := by
  cases found : takeFirst r.kind c.slots with
  | none => simp only [claim, found]
  | some after =>
    obtain ⟨before, taken, later, same, split, _⟩ := takeFirst_some found
    have positive : 0 < c.left r.kind := by
      rw [left, split]
      exact tally_pos.mpr ⟨taken, by simp, same⟩
    omega

theorem claim_granted {r : Record} (claimed : c.left r.kind ≠ 0) :
    ∃ after : Claims, c.claim (some r) = (some r, after) ∧
      (∀ kind, after.left kind = c.left kind - tally kind [r]) ∧ (c.Counted → after.Counted) := by
  cases found : takeFirst r.kind c.slots with
  | none => exact absurd (takeFirst_none found) claimed
  | some slots =>
    obtain ⟨before, taken, later, same, split, joined⟩ := takeFirst_some found
    refine ⟨⟨slots, c.remaining - 1⟩, by simp only [claim, found], fun kind => ?_, fun counted => ?_⟩
    · have one : tally kind [r] = tally kind [taken] := by
        rw [tally_single, tally_single, same]
      rw [left, left, split, joined, one, tally_append, tally_append, tally_cons kind taken]
      omega
    · rw [Counted, split, List.length_append, List.length_cons] at counted
      rw [Counted, joined, counted, List.length_append]
      rfl

/-- Of the records in some slots those are shown that find a claim. -/
theorem claimAll_spec (c : Claims) (slots : List Slot) :
    (c.claimAll slots).1.filterMap id = allotted c.left (slots.filterMap id) ∧
      (∀ kind, (c.claimAll slots).2.left kind = c.left kind - tally kind (slots.filterMap id)) ∧
      (c.Counted → (c.claimAll slots).2.Counted) := by
  induction slots generalizing c with
  | nil => exact ⟨rfl, fun _ => rfl, fun counted => counted⟩
  | cons slot rest ih =>
    cases slot with
    | none => exact ih c
    | some r =>
      show _ = allotted c.left (r :: rest.filterMap id) ∧
        (∀ kind, _ = c.left kind - tally kind (r :: rest.filterMap id)) ∧ _
      by_cases exhausted : c.left r.kind = 0
      · have unchanged : (fun kind => c.left kind - tally kind [r]) = c.left := by
          funext kind
          rw [tally_single]
          split
          · rename_i same
            rw [← same, exhausted]
          · rfl
        obtain ⟨shown, later, counts⟩ := ih c
        simp only [claimAll, claim_refused exhausted, allotted, exhausted, ↓reduceIte, unchanged]
        refine ⟨shown, fun kind => ?_, counts⟩
        have same := congrFun unchanged kind
        rw [later kind, tally_cons, Nat.sub_add_eq, same]
      · obtain ⟨after, granted, less, counted⟩ := claim_granted exhausted
        obtain ⟨shown, later, counts⟩ := ih after
        simp only [claimAll, granted, allotted, exhausted, ↓reduceIte, ← less]
        refine ⟨?_, fun kind => ?_, fun given => counts (counted given)⟩
        · show r :: _ = _
          rw [shown]
        · rw [later kind, less kind, tally_cons kind r (rest.filterMap id), Nat.sub_add_eq]

/-- Where every record finds a claim all slots stay as they are. -/
theorem claimAll_of_covered
    (covered : ∀ kind, tally kind (slots.filterMap id) ≤ c.left kind) : (c.claimAll slots).1 = slots := by
  induction slots generalizing c with
  | nil => rfl
  | cons slot rest ih =>
    cases slot with
    | none => exact congrArg (none :: ·) (ih covered)
    | some r =>
      have covered (kind : TypeId) : tally kind (r :: rest.filterMap id) ≤ c.left kind := covered kind
      have here := covered r.kind
      rw [tally_cons, tally_single, if_pos rfl] at here
      obtain ⟨after, granted, less, _⟩ := claim_granted (c := c) (r := r) (by omega)
      have later : (after.claimAll rest).1 = rest := by
        refine ih fun kind => ?_
        have there := covered kind
        rw [tally_cons] at there
        rw [less kind]
        omega
      simp only [claimAll, granted, later]

end Scan.Claims

end Lineage
