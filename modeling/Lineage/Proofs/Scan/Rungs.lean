import Lineage.Proofs.Catalog.Visible
import Lineage.Proofs.Scan.Alone
import Lineage.Proofs.Scan.Levels
import Lineage.Proofs.Scan.Rounds

namespace Lineage

namespace Event

def found (log : List Event) : List Found :=
  (deliveries log).flatMap fun d => (d.slots.filterMap id).map (⟨d.index, d.source, ·⟩)

theorem found_append (first rest : List Event) : found (first ++ rest) = found first ++ found rest := by
  rw [found, deliveries_append, List.flatMap_append]
  rfl

end Event

def Level.found (l : Level) : List Found := l.records.map (⟨l.index, l.source, ·⟩)

theorem Level.flatMap_found_of? (index : Nat) (source : Element) (records : List Record) :
    (of? index source records).toList.flatMap found = records.map (⟨index, source, ·⟩) := by
  unfold of?
  split
  · rename_i empty
    rw [List.isEmpty_iff.mp empty]
    rfl
  · exact List.append_nil _

theorem Event.found_eq_levels (log : List Event) : found log = (levels log).flatMap Level.found := by
  induction log with
  | nil => rfl
  | cons event rest ih =>
    cases event with
    | enter _ | failure _ _ => exact ih
    | records index source slots =>
      rw [levels_records, List.flatMap_append, Level.flatMap_found_of?, ← ih]
      rfl

namespace Scanner

variable {s : Scanner} {left : TypeId → Nat}

def kept (s : Scanner) (id : TypeId) : List Record :=
  (s.catalog.recordsOf (.type id)).filter s.keeps

theorem filterMap_slotsOf (type : TypeId) : (s.slotsOf (.type type)).filterMap id = s.kept type := by
  let slots := (s.catalog.recordsOf (.type type)).map (Option.guard s.keeps)
  have all : slots.filterMap id = s.kept type := by
    rw [List.filterMap_map, kept, ← List.filterMap_eq_filter]
    rfl
  show (if slots.any Option.isSome then slots else []).filterMap id = _
  split
  · exact all
  · rename_i holes
    have nothing : slots.filterMap id = [] := by
      rw [List.filterMap_eq_nil_iff]
      intro slot member
      cases slot with
      | none => rfl
      | some r => exact absurd (List.any_eq_true.mpr ⟨_, member, rfl⟩) holes
    rw [← all, nothing]
    rfl

def isRung (s : Scanner) (id : TypeId) : Bool :=
  id != Catalog.root && (s.catalog.type? id).any fun d => !s.settings.isPlainName d.name

/-- What an inherited walk shows of the records of some types when so many of each kind are claimed,
    a level each. -/
def spread (s : Scanner) : Nat → (TypeId → Nat) → List TypeId → List Found
  | _, _, [] => []
  | index, left, id :: rest =>
    (allotted left (s.kept id)).map (⟨index, .type id, ·⟩) ++
      spread s (index + 1) (fun kind => left kind - tally kind (s.kept id)) rest

end Scanner

namespace Catalog

variable {c : Catalog} {source : TypeId}

theorem isWithoutHierarchy_of_interfaces {above : Option TypeId} {ids : List TypeId}
    (known : c.superclass source = .ok above) (implements : c.interfaces source = .ok ids) :
    ∃ alone, c.isWithoutHierarchy .inherited (.type source) = .ok alone ∧
      (alone = true → source = root ∨ ∀ type ∈ above, type = root) := by
  have asked : c.isWithoutHierarchy .inherited (.type source) = c.isTopType source .inherited := rfl
  rw [asked, isTopType]
  by_cases isRoot : source = root
  · exact ⟨true, if_pos isRoot, fun _ => .inl isRoot⟩
  rw [if_neg isRoot, known]
  show ∃ alone, (if above.all (· = root) = true then _ else pure false) = _ ∧ _
  by_cases top : above.all (· = root) = true
  · refine ⟨ids.isEmpty, ?_, fun _ => .inr fun type member => ?_⟩
    · rw [if_pos top, implements]
      show (if (ids.isEmpty && decide (Strategy.inherited = .enclosing)) = true then _
        else pure ids.isEmpty) = _
      rw [decide_eq_false (by decide), Bool.and_false, if_neg Bool.false_ne_true]
      rfl
    · cases member
      rw [Option.all_some, decide_eq_true_eq] at top
      exact top
  · exact ⟨false, if_neg top, fun wrong => by cases wrong⟩

theorem isWithoutHierarchy_of_superclass {above : TypeId}
    (known : c.superclass source = .ok (some above)) (below : source ≠ root) (notRoot : above ≠ root) :
    c.isWithoutHierarchy .inherited (.type source) = .ok false := by
  have asked : c.isWithoutHierarchy .inherited (.type source) = c.isTopType source .inherited := rfl
  rw [asked, isTopType, if_neg below, known]
  show (if (some above).all (· = root) = true then _ else pure false) = _
  rw [Option.all_some, decide_eq_false notRoot, if_neg Bool.false_ne_true]
  rfl

end Catalog

namespace Terrain

open Course

variable {t : Terrain} {source type above : TypeId} {types : List TypeId} {visible : List Record}
  {claims : Option Scan.Claims} {left : TypeId → Nat}

def Leaves (visible : List Record) : Option Scan.Claims → (TypeId → Nat) → Prop
  | none, left => ∀ kind, left kind = tally kind visible
  | some claims, left => claims.Counted ∧ ∀ kind, left kind = claims.left kind

theorem Leaves.nothing (leaves : Leaves visible claims left)
    (exhausted : claims.any (·.remaining = 0) = true) (kind : TypeId) : left kind = 0 := by
  cases claims with
  | none => cases exhausted
  | some c =>
    rw [Option.any_some, decide_eq_true_eq] at exhausted
    rw [leaves.2 kind]
    exact leaves.1.nothing exhausted

def kept (t : Terrain) (id : TypeId) : List Record := if t.rejects id then [] else t.scanner.kept id

def ladder (t : Terrain) : Nat → (TypeId → Nat) → List TypeId → List Level
  | _, _, [] => []
  | index, left, id :: rest =>
    (Level.of? index (.type id) (allotted left (t.kept id))).toList ++
      ladder t (index + 1) (fun kind => left kind - tally kind (t.kept id)) rest

theorem ladder_nothing (exhausted : ∀ kind, left kind = 0) (index : Nat) (types : List TypeId) :
    t.ladder index left types = [] := by
  induction types generalizing index left with
  | nil => rfl
  | cons id rest ih =>
    rw [ladder, allotted_nothing exhausted, ih]
    · rfl
    · intro kind
      rw [exhausted kind, Nat.zero_sub]

theorem flatMap_found_ladder (unfiltered : ∀ type, t.rejects type = false) (index : Nat)
    (left : TypeId → Nat) (types : List TypeId) :
    (t.ladder index left types).flatMap Level.found = t.scanner.spread index left types := by
  induction types generalizing index left with
  | nil => rfl
  | cons id rest ih =>
    have same : t.kept id = t.scanner.kept id := by
      rw [kept, unfiltered]
      rfl
    rw [ladder, List.flatMap_append, Level.flatMap_found_of?, ih, Scanner.spread, same]

theorem inheritedLevel_eq (admitted : t.rejects type = false)
    (present : t.scanner.catalog.isPresent type = true) (index : Nat) (claims : Option Scan.Claims) :
    t.inheritedLevel source type index claims =
      (do
        match ← t.claimsFor source (t.scanner.slotsOf (.type type)) claims with
        | some claims =>
          deliver index (.type type) (claims.claimAll (t.scanner.slotsOf (.type type))).1
          pure (some (claims.claimAll (t.scanner.slotsOf (.type type))).2)
        | none =>
          deliver index (.type type) (t.scanner.slotsOf (.type type))
          pure none) := by
  unfold inheritedLevel
  rw [admitted, Scanner.freshSlots_of_present present]
  rfl

/-- A rung of an inherited walk fails or makes a call at most, with some records of its type. -/
theorem inheritedLevel_cases (source type : TypeId) (index : Nat) (claims : Option Scan.Claims) (i : Nat) :
    (∃ e, (t.inheritedLevel source type index claims).run i = ⟨.error e, i, []⟩) ∨
      ∃ after slots log, t.shown (.type type) = .ok slots ∧
        (t.inheritedLevel source type index claims).run i = ⟨.ok after, i, log⟩ ∧
        (log = [] ∨ ∃ part, log = [.records index (.type type) part] ∧
          (part.filterMap id).Sublist (slots.filterMap id)) := by
  have shown : t.shown (.type type) =
      if t.rejects type then .ok [] else t.scanner.freshSlots (.type type) := rfl
  rw [shown]
  unfold inheritedLevel
  split
  · exact .inr ⟨claims, [], [], rfl, rfl, .inl rfl⟩
  cases t.scanner.freshSlots (.type type) with
  | error e => exact .inl ⟨e, rfl⟩
  | ok slots =>
    have claimed (c : Scan.Claims) :
        ((c.claimAll slots).1.filterMap id).Sublist (slots.filterMap id) := by
      rw [(c.claimAll_spec slots).1]
      exact allotted_sublist _ _
    cases claims with
    | some c => exact .inr ⟨_, slots, _, rfl, rfl, .inr ⟨_, rfl, claimed c⟩⟩
    | none =>
      cases empty : slots.isEmpty with
      | true =>
        refine .inr ⟨none, slots, [.records index (.type type) slots], rfl, ?_,
          .inr ⟨slots, rfl, .refl _⟩⟩
        rw [List.isEmpty_iff.mp empty]
        rfl
      | false =>
        cases known : t.scanner.catalog.visibleRecords source with
        | error e =>
          refine .inl ⟨e, ?_⟩
          rw [ask_ok, claimsFor, empty, known]
          rfl
        | ok visible =>
          let claims := Scan.Claims.ofRecords visible
          refine .inr ⟨some (claims.claimAll slots).2, slots, _, rfl, ?_,
            .inr ⟨_, rfl, claimed claims⟩⟩
          rw [ask_ok, claimsFor, empty, known]
          rfl

theorem inheritedLevel_run (present : t.scanner.catalog.isPresent type = true)
    (known : t.scanner.catalog.visibleRecords source = .ok visible)
    (leaves : Leaves visible claims left) (index i : Nat) :
    ∃ after log,
      (t.inheritedLevel source type index claims).run i = ⟨.ok after, i, log⟩ ∧
      Event.levels log = (Level.of? index (.type type) (allotted left (t.kept type))).toList ∧
      Leaves visible after fun kind => left kind - tally kind (t.kept type) := by
  cases admitted : t.rejects type with
  | true =>
    have nothing : t.kept type = [] := by
      rw [kept, admitted]
      rfl
    refine ⟨claims, [], ?_, ?_, ?_⟩
    · unfold inheritedLevel
      rw [admitted]
      rfl
    · rw [nothing]
      rfl
    · rw [nothing]
      exact leaves
  | false =>
    have whole : t.kept type = t.scanner.kept type := by
      rw [kept, admitted]
      rfl
    have claimed (c : Scan.Claims) (counted : c.Counted) (same : ∀ kind, left kind = c.left kind) :
        Event.levels [.records index (.type type) (c.claimAll (t.scanner.slotsOf (.type type))).1] =
            (Level.of? index (.type type) (allotted left (t.scanner.kept type))).toList ∧
          Leaves visible (some (c.claimAll (t.scanner.slotsOf (.type type))).2)
            fun kind => left kind - tally kind (t.scanner.kept type) := by
      obtain ⟨shown, later, counts⟩ := c.claimAll_spec (t.scanner.slotsOf (.type type))
      rw [Scanner.filterMap_slotsOf] at shown later
      have lefts : left = c.left := funext same
      refine ⟨by rw [Event.levels_call, shown, lefts], counts counted, fun kind => ?_⟩
      rw [later, lefts]
    rw [inheritedLevel_eq admitted present, whole]
    cases claims with
    | some c => exact ⟨_, _, rfl, claimed c leaves.1 leaves.2⟩
    | none =>
      cases empty : (t.scanner.slotsOf (.type type)).isEmpty with
      | true =>
        have nothing : t.scanner.kept type = [] := by
          rw [← Scanner.filterMap_slotsOf, List.isEmpty_iff.mp empty]
          rfl
        refine ⟨none, [.records index (.type type) []], ?_, ?_, ?_⟩
        · rw [List.isEmpty_iff.mp empty]
          rfl
        · rw [nothing]
          rfl
        · rw [nothing]
          exact leaves
      | false =>
        have counted := Scan.Claims.counted_ofRecords visible
        have same (kind : TypeId) : left kind = (Scan.Claims.ofRecords visible).left kind := by
          rw [leaves kind, Scan.Claims.left_ofRecords]
        refine ⟨_, _, ?_, claimed _ counted same⟩
        rw [claimsFor, empty, known]
        rfl

theorem inheritedLevel_failures (source type : TypeId) (index : Nat) (claims : Option Scan.Claims)
    (i : Nat) : Event.failures ((t.inheritedLevel source type index claims).run i).events = [] := by
  rcases t.inheritedLevel_cases source type index claims i with ⟨e, ran⟩ | ⟨_, _, log, _, ran, calls⟩
  · rw [ran]
    rfl
  · rw [ran]
    rcases calls with rfl | ⟨part, rfl, _⟩
    · rfl
    · rfl

/-- A round ends the loop where no type can show anything any more, or shows what is claimed of its
    type and goes on with the next one. -/
theorem inheritedRound_run (early : Bool)
    (known : t.scanner.catalog.visibleRecords source = .ok visible)
    (chain : t.scanner.catalog.Chain type types) (leaves : Leaves visible claims left)
    (index i : Nat) :
    ((t.scanner.isRung type = false ∨ ∀ kind, left kind = 0) ∧
        (t.inheritedRound early source type index claims).run i = ⟨.ok none, i, []⟩) ∨
      (t.scanner.isRung type = true ∧ ∃ after log,
        (t.inheritedRound early source type index claims).run i =
          ⟨.ok (types.head?.map (·, after)), i, log⟩ ∧
        Event.levels log = (Level.of? index (.type type) (allotted left (t.kept type))).toList ∧
        Event.failures log = [] ∧
        Leaves visible after fun kind => left kind - tally kind (t.kept type)) := by
  have present := chain.present type List.mem_cons_self
  obtain ⟨decl, found, _⟩ := Catalog.load_of_present present
  have rung : t.scanner.isRung type =
      (type != Catalog.root && !t.scanner.settings.isPlainName decl.name) := by
    simp only [Scanner.isRung, found, Option.any_some]
  unfold inheritedRound
  by_cases isRoot : type = Catalog.root
  · refine .inl ⟨.inl ?_, ?_⟩
    · rw [rung, isRoot, bne_self_eq_false, Bool.false_and]
    · simp only [isRoot, decide_true, Bool.true_or, ↓reduceIte]
      rfl
  cases exhausted : early && claims.any (·.remaining = 0) with
  | true =>
    -- the loop may end before the ladder does, where nothing is left to show
    refine .inl ⟨.inr (leaves.nothing (Bool.and_eq_true_iff.mp exhausted).2), ?_⟩
    rw [Bool.or_true, if_pos rfl]
    rfl
  | false =>
    simp only [isRoot, decide_false, Bool.false_or, Bool.false_eq_true, ↓reduceIte]
    rw [Scanner.isPlainType_of_found found, ask_ok, rung, bne_iff_ne.mpr isRoot, Bool.true_and]
    cases t.scanner.settings.isPlainName decl.name with
    | true => exact .inl ⟨.inl rfl, rfl⟩
    | false =>
      obtain ⟨after, log, ran, shown, leavesAfter⟩ := inheritedLevel_run present known leaves index i
      have silent := t.inheritedLevel_failures source type index claims i
      rw [ran] at silent
      refine .inr ⟨rfl, after, .enter index :: log, ?_, shown, silent, leavesAfter⟩
      have entered : (enter index).run i = ⟨.ok (), i, [.enter index]⟩ := rfl
      simp only [Bool.false_eq_true, ↓reduceIte]
      rw [chain.superclass, run_bind_of_run entered, run_bind_of_run ran]
      show Passage.mk _ _ (_ :: (log ++ [])) = _
      rw [List.append_nil]
      rfl

/-- The loop of an inherited walk shows what is claimed of the types on its ladder and nothing else,
    whether it ends early or not, and nothing fails. -/
theorem inheritedLoop_run (early : Bool)
    (known : t.scanner.catalog.visibleRecords source = .ok visible)
    {fuel : Nat} (chain : t.scanner.catalog.Chain type types) (enough : types.length < fuel)
    (leaves : Leaves visible claims left) (index i : Nat) :
    ∃ log, (t.inheritedLoop early source fuel type index claims).run i = ⟨.ok (), i, log⟩ ∧
      Event.levels log = t.ladder index left ((type :: types).takeWhile t.scanner.isRung) ∧
      Event.failures log = [] := by
  induction fuel generalizing type types claims left index with
  | zero => cases enough
  | succ fuel ih =>
    unfold inheritedLoop
    rw [List.takeWhile_cons]
    rcases inheritedRound_run early known chain leaves index i with
      ⟨ended, ran⟩ | ⟨isRung, after, log, ran, shown, silent, leavesAfter⟩
    · refine ⟨[], run_contain_of_run ?_ _, ?_, rfl⟩
      · rw [run_bind_of_run ran]
        rfl
      · rcases ended with notRung | nothing
        · rw [notRung]
          rfl
        · rw [ladder_nothing nothing]
          rfl
    · rw [isRung, if_pos rfl, ladder]
      cases chain with
      | last _ =>
        refine ⟨log, run_contain_of_run ?_ _, shown.trans (List.append_nil _).symm, silent⟩
        rw [run_bind_of_run ran]
        show Passage.mk _ _ (log ++ []) = _
        rw [List.append_nil]
        rfl
      | next _ rest =>
        obtain ⟨further, ranFurther, shownFurther, silentFurther⟩ :=
          ih rest (Nat.lt_of_succ_lt_succ enough) leavesAfter (index + 1)
        refine ⟨log ++ further, run_contain_of_run ?_ _, ?_, ?_⟩
        · rw [run_bind_of_run ran, List.head?_cons, Option.map_some, Option.elim_some, ranFurther]
        · rw [Event.levels_append, shown, shownFurther]
        · rw [Event.failures_append, silent, silentFurther]
          rfl

/-- An inherited walk shows what is claimed of the types on its ladder, and nothing else. -/
theorem inheritedFrom_levels (known : t.scanner.catalog.visibleRecords source = .ok visible)
    {fuel : Nat} (chain : t.scanner.catalog.Chain type types) (enough : types.length < fuel)
    (leaves : Leaves visible claims left) (index i : Nat) :
    Event.levels ((t.inheritedFrom source fuel type index claims).run i).events =
      t.ladder index left ((type :: types).takeWhile t.scanner.isRung) := by
  obtain ⟨log, ran, shown, _⟩ := inheritedLoop_run true known chain enough leaves index i
  rw [← inheritedLoop_early, ran]
  exact shown

theorem inheritedLevel_run_of_error {e : QueryError}
    (unknown : t.scanner.catalog.visibleRecords source = .error e) (index i : Nat) :
    (∃ e, (t.inheritedLevel source type index none).run i = ⟨.error e, i, []⟩) ∨
      ∃ log, (t.inheritedLevel source type index none).run i = ⟨.ok none, i, log⟩ ∧
        Event.levels log = [] := by
  unfold inheritedLevel
  cases t.rejects type with
  | true => exact .inr ⟨[], rfl, rfl⟩
  | false =>
    cases declared : t.scanner.freshSlots (.type type) with
    | error e => exact .inl ⟨e, rfl⟩
    | ok slots =>
      cases slots with
      | nil => exact .inr ⟨[.records index (.type type) []], rfl, rfl⟩
      | cons slot rest =>
        refine .inl ⟨e, ?_⟩
        rw [if_neg Bool.false_ne_true, ask_ok, claimsFor, unknown]
        rfl

theorem inheritedFrom_levels_of_error {e : QueryError}
    (unknown : t.scanner.catalog.visibleRecords source = .error e) (fuel index i : Nat) :
    Event.levels ((t.inheritedFrom source fuel type index none).run i).events = [] := by
  induction fuel generalizing type index with
  | zero => rfl
  | succ fuel ih =>
    unfold inheritedFrom
    rw [levels_contain]
    by_cases isRoot : type = Catalog.root
    · simp only [isRoot, decide_true, Bool.true_or, ↓reduceIte]
      rfl
    simp only [isRoot, decide_false, Option.any_none, Bool.or_false, Bool.false_eq_true, ↓reduceIte]
    rcases t.scanner.isPlainType type with e | _ | _
    · rfl
    · have entered : (enter index).run i = ⟨.ok (), i, [.enter index]⟩ := rfl
      rw [ask_ok, if_neg Bool.false_ne_true, levels_bind entered]
      rcases inheritedLevel_run_of_error unknown index i with ⟨e, ran⟩ | ⟨log, ran, none⟩
      · rw [levels_bind_of_error ran]
        rfl
      · rw [levels_bind ran, none]
        rcases t.scanner.catalog.superclass type with e | _ | above
        · rfl
        · rfl
        · exact ih (index + 1)
    · rfl

theorem element_levels (type : TypeId) (i : Nat) :
    Event.levels ((t.element (.type type)).run i).events =
      (Level.of? 0 (.type type)
        (((t.shown (.type type)).toOption.getD []).filterMap id)).toList := by
  unfold element
  rw [levels_contain, declared_eq_ask]
  cases t.shown (.type type) with
  | error e => rfl
  | ok slots => exact Event.levels_call 0 (.type type) slots

theorem inheritedType_levels_of_unasked {e : QueryError}
    (asked : t.scanner.catalog.isWithoutHierarchy .inherited (.type source) = .error e)
    (fuel : Nat) : Event.levels ((t.inheritedType fuel source).run 0).events = [] := by
  unfold inheritedType
  rw [levels_contain, asked]
  rfl

section

variable (asked : t.scanner.catalog.isWithoutHierarchy .inherited (.type source) = .ok false)
include asked

theorem inheritedType_levels (known : t.scanner.catalog.visibleRecords source = .ok visible)
    {fuel : Nat} (chain : t.scanner.catalog.Chain source types) (enough : types.length < fuel) :
    Event.levels ((t.inheritedType fuel source).run 0).events =
      t.ladder 0 (fun kind => tally kind visible)
        ((source :: types).takeWhile t.scanner.isRung) := by
  have leaves : Leaves visible none fun kind => tally kind visible := fun _ => rfl
  unfold inheritedType
  rw [levels_contain, asked, ask_ok, if_neg Bool.false_ne_true]
  exact inheritedFrom_levels known chain enough leaves 0 0

theorem inheritedType_levels_of_error {e : QueryError}
    (unknown : t.scanner.catalog.visibleRecords source = .error e) (fuel : Nat) :
    Event.levels ((t.inheritedType fuel source).run 0).events = [] := by
  unfold inheritedType
  rw [levels_contain, asked, ask_ok, if_neg Bool.false_ne_true]
  exact inheritedFrom_levels_of_error unknown fuel 0 0

end

theorem inheritedType_found_of_unasked {e : QueryError}
    (asked : t.scanner.catalog.isWithoutHierarchy .inherited (.type source) = .error e)
    (fuel : Nat) : Event.found ((t.inheritedType fuel source).run 0).events = [] := by
  rw [Event.found_eq_levels, inheritedType_levels_of_unasked asked]
  rfl

section

variable (unfiltered : ∀ type, t.rejects type = false) {alone : Bool}
  (asked : t.scanner.catalog.isWithoutHierarchy .inherited (.type source) = .ok alone)
include unfiltered asked

theorem inheritedType_found_of_alone (isAlone : alone = true) (fuel : Nat) :
    Event.found ((t.inheritedType fuel source).run 0).events =
      (((t.scanner.freshSlots (.type source)).toOption.getD []).filterMap id).map
        (⟨0, .type source, ·⟩) := by
  subst isAlone
  rw [inheritedType_of_alone asked, Event.found_eq_levels, element_levels,
    shown_of_unfiltered unfiltered, Level.flatMap_found_of?]

theorem inheritedType_found (notAlone : alone = false)
    (known : t.scanner.catalog.visibleRecords source = .ok visible) {fuel : Nat}
    (chain : t.scanner.catalog.Chain source types) (enough : types.length < fuel) :
    Event.found ((t.inheritedType fuel source).run 0).events =
      t.scanner.spread 0 (fun kind => tally kind visible)
        ((source :: types).takeWhile t.scanner.isRung) := by
  subst notAlone
  rw [Event.found_eq_levels, inheritedType_levels asked known chain enough,
    flatMap_found_ladder unfiltered]

omit unfiltered in
theorem inheritedType_found_of_error (notAlone : alone = false) {e : QueryError}
    (unknown : t.scanner.catalog.visibleRecords source = .error e) (fuel : Nat) :
    Event.found ((t.inheritedType fuel source).run 0).events = [] := by
  subst notAlone
  rw [Event.found_eq_levels, inheritedType_levels_of_error asked unknown]
  rfl

end

end Terrain

end Lineage
