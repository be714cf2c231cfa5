import Lineage.Proofs.Catalog.Built
import Lineage.Proofs.Scan.Deliveries
import Lineage.Proofs.Value.Equality
import Mathlib.Data.List.Forall2

namespace Lineage

namespace Scan

/-- What is left of a slot after some slots were shown: a hole in place of a record equal to a shown
    one. -/
inductive Leftover (shown : List Slot) : Slot → Slot → Prop
  | hole : Leftover shown none none
  | again {r old : Record} (listed : some old ∈ shown) (equal : (old == r) = true) :
      Leftover shown (some r) none
  | new {r : Record} (unlike : ∀ old, some old ∈ shown → (old == r) = false) :
      Leftover shown (some r) (some r)

section

variable {own others : List Slot} {r : Record}

theorem contains_some_iff :
    own.contains (some r) = true ↔ ∃ old, some old ∈ own ∧ (old == r) = true := by
  rw [List.contains_iff_exists_mem_beq]
  constructor
  · rintro ⟨_ | old, listed, equal⟩
    · cases equal
    · exact ⟨old, listed, BEq.symm (α := Record) equal⟩
  · rintro ⟨old, listed, equal⟩
    exact ⟨some old, listed, BEq.symm (α := Record) equal⟩

theorem withoutShown_leftover :
    List.Forall₂ (Leftover own) others (withoutShown own others) := by
  rw [withoutShown, List.forall₂_map_right_iff, List.forall₂_same]
  intro slot _
  cases slot with
  | none =>
    rw [ite_self]
    exact .hole
  | some r =>
    split
    · rename_i before
      obtain ⟨old, listed, equal⟩ := contains_some_iff.mp before
      exact .again listed equal
    · rename_i before
      refine .new fun old listed => ?_
      by_contra equal
      exact before (contains_some_iff.mpr ⟨old, listed, Bool.of_not_eq_false equal⟩)

theorem count_withoutShown_of_shown (before : 0 < own.count (some r)) :
    (withoutShown own others).count (some r) = 0 := by
  obtain ⟨slot, listed, equal⟩ := List.countP_pos_iff.mp before
  rw [List.count, List.countP_eq_zero]
  intro left member
  obtain ⟨other, _, rfl⟩ := List.mem_map.mp member
  split
  · exact Bool.false_ne_true
  · rename_i unlike
    intro same
    refine unlike (List.contains_iff_exists_mem_beq.mpr ⟨slot, listed, ?_⟩)
    exact BEq.trans same (BEq.symm equal)

theorem count_withoutShown_of_new (never : own.count (some r) = 0) :
    (withoutShown own others).count (some r) = others.count (some r) := by
  rw [List.count, List.countP_eq_zero] at never
  rw [withoutShown, List.count, List.countP_map]
  refine List.countP_congr fun slot _ => ?_
  simp only [Function.comp_apply]
  split
  · rename_i before
    obtain ⟨old, listed, equal⟩ := List.contains_iff_exists_mem_beq.mp before
    refine iff_of_false Bool.false_ne_true fun same => never old listed ?_
    exact BEq.trans (BEq.symm equal) same
  · exact Iff.rfl

/-- What is in the first list counts as often as there, anything else as often as in the second. -/
theorem count_own_add_left (own others : List Slot) (r : Record) :
    own.count (some r) + (withoutShown own others).count (some r) =
      if 0 < own.count (some r) then own.count (some r) else others.count (some r) := by
  split
  · rename_i before
    rw [count_withoutShown_of_shown before, Nat.add_zero]
  · rename_i never
    have none := Nat.eq_zero_of_not_pos never
    rw [count_withoutShown_of_new none, none, Nat.zero_add]

end

end Scan

namespace Terrain

open Course

variable {t : Terrain} {id original : MemberId}

theorem shown_member {decl : MemberDecl} (known : t.scanner.catalog.memberDecl id = .ok decl) :
    t.shown (.member id) =
      if t.rejects decl.declaring then .ok [] else t.scanner.freshSlots (.member id) := by
  simp only [shown, owner, known, Bind.bind, Except.bind]
  rfl

theorem memberAlone_of_bridge {own others : List Slot} (shown : t.shown (.member id) = .ok own)
    (bridged : t.scanner.catalog.bridged id = .ok original) (other : original ≠ id)
    (given : t.shown (.member original) = .ok others) :
    ((t.memberAlone id).run 0).events =
      [.enter 0, .records 0 (.member id) own,
        .records 0 (.member id) (Scan.withoutShown own others)] := by
  unfold memberAlone memberRecords
  simp only [declared_eq_ask, shown, bridged, given, ask_ok, if_neg other]
  rfl

end Terrain

namespace Scan

variable {σ ο : Type}

def Offers (s : Scan σ ο) (id : MemberId) (slots : List Slot) : Prop :=
  ∃ decl, s.scanner.catalog.memberDecl id = .ok decl ∧
    (if s.rejects decl.declaring then .ok []
      else ((s.scanner.declared (.member id)).answered .empty).1) = .ok slots

theorem exists_offers (s : Scan σ ο) {id : MemberId} {decl : MemberDecl}
    (known : s.scanner.catalog.memberDecl id = .ok decl)
    (present : s.scanner.catalog.isPresent decl.declaring = true) :
    ∃ slots, s.Offers id slots ∧ s.terrain.shown (.member id) = .ok slots := by
  have asked := ((s.scanner.declared_settles (.member id)).answered (.empty s.scanner)).1
  have fresh := Scanner.freshSlots_of_loaded (s := s.scanner)
    (Catalog.loadElement_member_of_present known present)
  have shown := Terrain.shown_member (t := s.terrain) known
  obtain ⟨slots, known'⟩ : ∃ slots, s.terrain.shown (.member id) = .ok slots := by
    rw [shown]
    split
    · exact ⟨[], rfl⟩
    · exact ⟨_, fresh⟩
  refine ⟨slots, ⟨decl, known, ?_⟩, known'⟩
  rw [asked]
  exact shown.symm.trans known'

/-- A bridge shows its own records and then, in their places, those of its original that are equal
    to none of them. So a record is shown as often as the bridge has it or, if the bridge does not,
    as often as the original has it. -/
theorem bridge_loses_and_repeats_nothing (s : Scan σ ο) (history : List Operation)
    {id original : MemberId} {bridge o : MemberDecl} (patient : s.visitor.Patient)
    (known : s.scanner.catalog.memberDecl id = .ok bridge)
    (present : s.scanner.catalog.isPresent bridge.declaring = true)
    (standsFor : bridge.bridgeOf = some original) (other : original ≠ id)
    (knownToo : s.scanner.catalog.memberDecl original = .ok o)
    (presentToo : s.scanner.catalog.isPresent o.declaring = true) :
    ∃ own others left, s.Offers id own ∧ s.Offers original others ∧
      s.logAfter history .direct (.member id) =
        [.enter 0, .records 0 (.member id) own, .records 0 (.member id) left] ∧
      List.Forall₂ (Leftover own) others left ∧
      ∀ r, own.count (some r) + left.count (some r) =
        if 0 < own.count (some r) then own.count (some r) else others.count (some r) := by
  obtain ⟨own, offers, shown⟩ := s.exists_offers known present
  obtain ⟨others, offersToo, given⟩ := s.exists_offers knownToo presentToo
  have bridged : s.scanner.catalog.bridged id = .ok original := by
    rw [Catalog.bridged_of_known known, standsFor, Option.getD_some]
  refine ⟨own, others, withoutShown own others, offers, offersToo, ?_, withoutShown_leftover,
    count_own_add_left own others⟩
  rw [s.logAfter_of_patient history .direct _ patient]
  exact Terrain.memberAlone_of_bridge (t := s.terrain) shown bridged other given

def tagged (numbers : List Int) : Record := ⟨⟨1⟩, [("tags", .array (numbers.map .int))]⟩

def overpass : Scan (List Level) (List Level) where
  scanner := ⟨.ofDecls [Catalog.rootDecl,
    ⟨⟨1⟩, "mark.Tagged", .recordKind, [], none, [], none, false, true⟩,
    ⟨⟨2⟩, "shape.Base", .classType, [], some ⟨⟨0⟩, []⟩, [], none, false, true⟩,
    ⟨⟨3⟩, "shape.Low", .classType, [], some ⟨⟨2⟩, []⟩, [], none, false, true⟩]
    [⟨⟨0⟩, "save", ⟨2⟩, .everyone, [], .void, none, none⟩,
      ⟨⟨1⟩, "save", ⟨3⟩, .everyone, [], .void, none, some ⟨0⟩⟩]
    [(.member ⟨0⟩, tagged [2]), (.member ⟨0⟩, tagged [1, 2]), (.member ⟨0⟩, tagged [2]),
      (.member ⟨1⟩, tagged [1, 2]), (.member ⟨1⟩, tagged [1, 2])], {}⟩
  visitor := .levels
  rejects _ := false

theorem overpass_loses_and_repeats_nothing :
    ∃ own others left, overpass.Offers ⟨1⟩ own ∧ overpass.Offers ⟨0⟩ others ∧
      overpass.logAfter [.clear] .direct (.member ⟨1⟩) =
        [.enter 0, .records 0 (.member ⟨1⟩) own, .records 0 (.member ⟨1⟩) left] ∧
      List.Forall₂ (Leftover own) others left ∧
      ∀ r, own.count (some r) + left.count (some r) =
        if 0 < own.count (some r) then own.count (some r) else others.count (some r) := by
  have other : (⟨0⟩ : MemberId) ≠ ⟨1⟩ := by decide
  exact bridge_loses_and_repeats_nothing overpass [.clear] Visitor.levels_patient rfl rfl rfl other
    rfl rfl

example : (Event.deliveries (overpass.logAfter [] .direct (.member ⟨1⟩))).map
    (fun d => d.slots.map Option.isSome) = [[true, true], [true, false, true]] := by
  decide +kernel

end Scan

end Lineage
