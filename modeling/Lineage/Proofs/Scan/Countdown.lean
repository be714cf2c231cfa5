import Lineage.Proofs.Scan.Rungs

namespace Lineage

namespace Scan

namespace Claims

variable {c : Claims} {visible : List Record} {slots after : List Slot}

structure On (c : Claims) (visible : List Record) : Prop where
  slots : List.Forall₂ (fun slot r => slot = none ∨ slot = some r) c.slots visible
  counted : c.Counted

/-- While the records of some slots are claimed one by one the counter is right, and above zero
    wherever a claim is used up. -/
def Solvent (c : Claims) (declared : List Slot) : Prop :=
  ∀ before slot rest, declared = before ++ slot :: rest →
    let now := (c.claimAll before).2
    now.Counted ∧ ∀ r taken, slot = some r → takeFirst r.kind now.slots = some taken →
      0 < now.remaining

theorem on_ofRecords (visible : List Record) : (ofRecords visible).On visible where
  slots := by
    show List.Forall₂ _ (visible.map some) visible
    rw [List.forall₂_map_left_iff, List.forall₂_same]
    exact fun r _ => .inr rfl
  counted := counted_ofRecords visible

theorem takeFirst_on {kind : TypeId}
    (on : List.Forall₂ (fun slot r => slot = none ∨ slot = some r) slots visible)
    (taken : takeFirst kind slots = some after) :
    List.Forall₂ (fun slot r => slot = none ∨ slot = some r) after visible := by
  induction on generalizing after with
  | nil => cases taken
  | @cons slot r rest records here there ih =>
    cases slot with
    | none =>
      rw [takeFirst, Option.map_eq_some_iff] at taken
      obtain ⟨further, inRest, rfl⟩ := taken
      exact .cons here (ih inRest)
    | some first =>
      rw [takeFirst] at taken
      split at taken
      · cases taken
        exact .cons (.inl rfl) there
      · rw [Option.map_eq_some_iff] at taken
        obtain ⟨further, inRest, rfl⟩ := taken
        exact .cons here (ih inRest)

theorem claimAll_on (on : c.On visible) (slots : List Slot) : (c.claimAll slots).2.On visible := by
  refine ⟨?_, (c.claimAll_spec slots).2.2 on.counted⟩
  have kept := on.slots
  clear on
  induction slots generalizing c with
  | nil => exact kept
  | cons slot rest ih =>
    refine @ih (c.claim slot).2 ?_
    cases slot with
    | none => exact kept
    | some r =>
      cases found : takeFirst r.kind c.slots with
      | none =>
        simp only [claim, found]
        exact kept
      | some slots =>
        simp only [claim, found]
        exact takeFirst_on kept found

theorem On.solvent (on : c.On visible) (declared : List Slot) : c.Solvent declared := by
  intro before slot rest _ now
  have counted : now.Counted := (claimAll_on on before).counted
  exact ⟨counted, fun r taken _ found => remaining_pos counted found⟩

end Claims

variable {σ ο : Type} {s : Scan σ ο} {source id : TypeId} {index : Nat} {claims : Option Claims}

/-- Where the loop of an inherited walk comes to its head: the type it is at, the level, what is
    claimed, and how far the scan is. -/
inductive Head (s : Scan σ ο) (source : TypeId) (begun : Progress σ) :
    TypeId → Nat → Option Claims → Progress σ → Prop
  | first : Head s source begun source 0 none begun
  | next {id above : TypeId} {index : Nat} {claims left : Option Claims} {p after : Progress σ} :
    Head s source begun id index claims p →
    (s.inheritedRound true source id index claims).run p = .ok (some (above, left)) after →
    Head s source begun above (index + 1) left after

def Tallied (s : Scan σ ο) (source : TypeId) (claims : Option Claims) : Prop :=
  ∀ c ∈ claims, ∃ visible, s.scanner.catalog.visibleRecords source = .ok visible ∧ c.On visible

theorem Tallied.claimsFor {declared : List Slot} {found : Option Claims} {p after : Progress σ}
    (tallied : s.Tallied source claims)
    (ran : (s.claimsFor source declared claims).run p = .ok found after) : s.Tallied source found := by
  cases claims with
  | some c =>
    cases ran
    exact tallied
  | none =>
    unfold Scan.claimsFor at ran
    by_cases empty : declared.isEmpty = true
    · rw [if_pos empty] at ran
      cases ran
      exact nofun
    · rw [if_neg empty] at ran
      obtain ⟨visible, _, asked, ran⟩ := Trial.run_bind_eq_ok ran
      cases ran
      cases known : s.scanner.catalog.visibleRecords source with
      | error e =>
        rw [known] at asked
        cases asked
      | ok records =>
        rw [known] at asked
        cases asked
        intro c here
        cases here
        exact ⟨visible, known, Claims.on_ofRecords visible⟩

theorem Tallied.inheritedLevel {left : Option Claims} {p after : Progress σ}
    (tallied : s.Tallied source claims)
    (ran : (s.inheritedLevel source id index claims).run p = .ok left after) :
    s.Tallied source left := by
  unfold Scan.inheritedLevel at ran
  split at ran
  · cases ran
    exact tallied
  · obtain ⟨declared, _, _, ran⟩ := Trial.run_bind_eq_ok ran
    obtain ⟨found, _, asked, ran⟩ := Trial.run_bind_eq_ok ran
    have tallied := tallied.claimsFor asked
    cases found with
    | none =>
      obtain ⟨_, _, _, ran⟩ := Trial.run_bind_eq_ok ran
      cases ran
      exact nofun
    | some c =>
      obtain ⟨_, _, _, ran⟩ := Trial.run_bind_eq_ok ran
      cases ran
      obtain ⟨visible, known, on⟩ := tallied c rfl
      intro now here
      cases here
      exact ⟨visible, known, Claims.claimAll_on on declared⟩

theorem Tallied.inheritedRound {early : Bool} {above : TypeId} {left : Option Claims}
    {p after : Progress σ} (tallied : s.Tallied source claims)
    (ran : (s.inheritedRound early source id index claims).run p = .ok (some (above, left)) after) :
    s.Tallied source left := by
  unfold Scan.inheritedRound at ran
  split at ran
  · cases ran
  · obtain ⟨plain, _, _, ran⟩ := Trial.run_bind_eq_ok ran
    cases plain with
    | true => cases ran
    | false =>
      obtain ⟨_, _, _, ran⟩ := Trial.run_bind_eq_ok ran
      obtain ⟨now, _, shown, ran⟩ := Trial.run_bind_eq_ok ran
      obtain ⟨next, _, _, ran⟩ := Trial.run_bind_eq_ok ran
      have tallied := tallied.inheritedLevel shown
      cases next with
      | none => cases ran
      | some next =>
        cases ran
        exact tallied

/-- At every head of the loop the counter is the number of visible records that are still claimed. -/
theorem Head.tallied {begun p : Progress σ} (head : s.Head source begun id index claims p) :
    s.Tallied source claims := by
  induction head with
  | first => exact nofun
  | next _ ran ih => exact ih.inheritedRound ran

end Scan

namespace Terrain

open Course

variable {t : Terrain} {source type : TypeId} {fuel : Nat}

/-- Where the visible records cannot be found nothing is ever claimed. -/
theorem inheritedRound_of_error {e : QueryError} {early : Bool} {index i : Nat}
    {next : TypeId × Option Scan.Claims}
    (unknown : t.scanner.catalog.visibleRecords source = .error e)
    (ended : ((t.inheritedRound early source type index none).run i).answer = .ok (some next)) :
    next.2 = none := by
  unfold inheritedRound at ended
  split at ended
  · cases ended
  · obtain ⟨plain, j, _, ended⟩ := answer_bind_eq_ok ended
    cases plain with
    | true => cases ended
    | false =>
      obtain ⟨_, k, _, ended⟩ := answer_bind_eq_ok ended
      obtain ⟨left, _, shown, ended⟩ := answer_bind_eq_ok ended
      obtain ⟨above, _, _, ended⟩ := answer_bind_eq_ok ended
      have nothing : left = none := by
        rcases inheritedLevel_run_of_error unknown index k with ⟨e, ran⟩ | ⟨log, ran, _⟩
        · rw [ran] at shown
          cases shown
        · rw [ran] at shown
          cases shown
          rfl
      cases above with
      | none => cases ended
      | some above =>
        cases ended
        exact nothing

theorem inheritedLoop_of_error {e : QueryError}
    (unknown : t.scanner.catalog.visibleRecords source = .error e) (early : Bool) (index : Nat) :
    t.inheritedLoop early source fuel type index none =
      t.inheritedLoop true source fuel type index none := by
  induction fuel generalizing type index with
  | zero => rfl
  | succ fuel ih =>
    have rounds : t.inheritedRound early source type index none =
        t.inheritedRound true source type index none := by
      unfold inheritedRound
      rw [Option.any_none, Bool.and_false, Bool.and_false]
    unfold inheritedLoop
    rw [rounds]
    congr 1
    refine bind_congr_of_answer fun i next ended => ?_
    cases next with
    | none => rfl
    | some next =>
      have nothing : next.2 = none := inheritedRound_of_error unknown ended
      simp only [Option.elim_some, nothing, ih]

/-- An inherited walk that goes on when all claims are used up shows and reports nothing more. -/
theorem inheritedRun_whole (acyclic : t.scanner.catalog.AcyclicFrom TypeDecl.superLinks source)
    (enough : t.scanner.catalog.typeCount ≤ fuel) (early : Bool) :
    let whole := ((t.inheritedRun early fuel source).run 0).events
    let usual := ((t.inheritedRun true fuel source).run 0).events
    Event.levels whole = Event.levels usual ∧ Event.failures whole = Event.failures usual := by
  unfold inheritedRun
  cases asked : t.scanner.catalog.isWithoutHierarchy .inherited (.type source) with
  | error e => exact ⟨rfl, rfl⟩
  | ok alone =>
    cases alone with
    | true => exact ⟨rfl, rfl⟩
    | false =>
      rw [ask_ok, ask_ok, if_neg Bool.false_ne_true, if_neg Bool.false_ne_true]
      cases known : t.scanner.catalog.visibleRecords source with
      | error e =>
        rw [inheritedLoop_of_error known early]
        exact ⟨rfl, rfl⟩
      | ok visible =>
        obtain ⟨types, chain⟩ := Catalog.chain_of_visibleRecords known acyclic
        have shorter := (chain.length_lt_typeCount acyclic).trans_le enough
        have leaves : Leaves visible none fun kind => tally kind visible := fun _ => rfl
        obtain ⟨log, ran, shown, silent⟩ := inheritedLoop_run early known chain shorter leaves 0 0
        obtain ⟨usual, ranToo, shownToo, silentToo⟩ :=
          inheritedLoop_run true known chain shorter leaves 0 0
        rw [run_contain_of_run ran, run_contain_of_run ranToo]
        exact ⟨shown.trans shownToo.symm, silent.trans silentToo.symm⟩

end Terrain

namespace Scan

variable {σ ο : Type}

/-- The loop of an inherited walk counts its claims right and never uses up more than there are, and
    with the last claim it has shown and reported all that it would. -/
theorem inherited_counts_claims (s : Scan σ ο) (history : List Operation) {source : TypeId}
    (acyclic : s.scanner.catalog.AcyclicFrom TypeDecl.superLinks source) :
    let memo := s.scanner.memoAfter history
    let collecting : Scan (List Level) (List Level) := ⟨s.scanner, .levels, s.rejects⟩
    let usual := collecting.run .inherited (.type source) memo
    let whole := collecting.conclude
      ((collecting.inheritedRun false collecting.depth source).run (collecting.begin memo))
    (∀ fuel, s.inheritedType fuel source = s.inheritedRun true fuel source) ∧
    (∀ id index claims p, s.Head source (s.begin memo) id index claims p →
      s.Tallied source claims ∧
      ∀ declared found q after,
        (s.claimsFor source declared claims).run q = .ok (some found) after → found.Solvent declared) ∧
    usual.answer = whole.answer ∧ Event.failures usual.log = Event.failures whole.log := by
  intro memo collecting usual whole
  have faithful : memo.Faithful s.scanner := s.scanner.memoAfter_faithful history
  have enough : s.scanner.catalog.typeCount ≤ collecting.depth := collecting.typeCount_le_depth
  refine ⟨fun fuel => (s.inheritedRun_early fuel source).symm,
    fun id index claims p head => ⟨head.tallied, fun declared found q after asked => ?_⟩, ?_⟩
  · obtain ⟨visible, _, on⟩ := head.tallied.claimsFor asked found rfl
    exact on.solvent declared
  · obtain ⟨answer, log⟩ := collected_of_follows s.scanner s.rejects
      (collecting.inheritedRun_follows true collecting.depth source) faithful
    obtain ⟨answerWhole, logWhole⟩ := collected_of_follows s.scanner s.rejects
      (collecting.inheritedRun_follows false collecting.depth source) faithful
    -- what is collected and reported depends only on what happens
    obtain ⟨levels, failures⟩ :=
      Terrain.inheritedRun_whole (t := collecting.terrain) acyclic enough false
    have early : usual = collecting.conclude
        ((collecting.inheritedRun true collecting.depth source).run (collecting.begin memo)) := by
      rw [collecting.inheritedRun_early]
      rfl
    rw [early, answer, log, answerWhole, logWhole, levels, failures]
    exact ⟨rfl, rfl⟩

def cascade : Scan (List Level) (List Level) where
  scanner := ⟨.ofDecls [Catalog.rootDecl,
    ⟨⟨1⟩, "mark.Kept", .recordKind, [], none, [], none, true, true⟩,
    ⟨⟨2⟩, "mark.Own", .recordKind, [], none, [], none, false, true⟩,
    ⟨⟨3⟩, "shape.Top", .classType, [], some ⟨⟨0⟩, []⟩, [], none, false, true⟩,
    ⟨⟨4⟩, "shape.Middle", .classType, [], some ⟨⟨3⟩, []⟩, [], none, false, true⟩,
    ⟨⟨5⟩, "shape.Low", .classType, [], some ⟨⟨4⟩, []⟩, [], none, false, true⟩]
    [] [(.type ⟨3⟩, .ofKind ⟨1⟩), (.type ⟨4⟩, .ofKind ⟨1⟩), (.type ⟨5⟩, .ofKind ⟨2⟩)], {}⟩
  visitor := .levels
  rejects _ := false

theorem cascade_acyclic : cascade.scanner.catalog.AcyclicFrom TypeDecl.superLinks ⟨5⟩ := by
  have descends : cascade.scanner.catalog.Descends TypeDecl.superLinks TypeId.index := by decide
  exact (descends.grounded rfl).acyclic

/-- The loop comes to the upper type with no claim left. -/
theorem cascade_spent :
    ∃ p, cascade.Head ⟨5⟩ (cascade.begin (cascade.scanner.memoAfter [])) ⟨3⟩ 2
      (some ⟨[none, none], 0⟩) p :=
  ⟨_, (Head.first.next rfl).next rfl⟩

theorem cascade_counts_claims :
    let memo := cascade.scanner.memoAfter []
    let usual := cascade.run .inherited (.type ⟨5⟩) memo
    let whole := cascade.conclude
      ((cascade.inheritedRun false cascade.depth ⟨5⟩).run (cascade.begin memo))
    (∃ p, cascade.Head ⟨5⟩ (cascade.begin memo) ⟨3⟩ 2 (some ⟨[none, none], 0⟩) p ∧
      cascade.Tallied ⟨5⟩ (some ⟨[none, none], 0⟩)) ∧
    usual.answer = whole.answer ∧ Event.failures usual.log = Event.failures whole.log := by
  intro memo usual whole
  obtain ⟨_, heads, answer, failures⟩ := inherited_counts_claims cascade [] cascade_acyclic
  obtain ⟨p, spent⟩ := cascade_spent
  exact ⟨⟨p, spent, (heads _ _ _ _ spent).1⟩, answer, failures⟩

example :
    let memo := cascade.scanner.memoAfter []
    Event.entered (cascade.run .inherited (.type ⟨5⟩) memo).log = [0, 1] ∧
      Event.entered (cascade.conclude
        ((cascade.inheritedRun false cascade.depth ⟨5⟩).run (cascade.begin memo))).log =
          [0, 1, 2] := by decide +kernel

end Scan

end Lineage
