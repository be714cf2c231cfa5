import Lineage.Proofs.Scan.Provenance

namespace Lineage

def Scanner.Shuns (s : Scanner) : Event → Prop
  | .records _ source slots => s.isPlain source = .ok true → ∀ r, some r ∉ slots
  | .enter _ | .failure _ _ => True

namespace Terrain

open Course

variable {t : Terrain} {source : Element} {strategy : Strategy}

def Bare (t : Terrain) (source : Element) : Prop :=
  ∀ own, t.shown source = .ok own → ∀ on, t.scanner.catalog.StandsFor source on →
    ∀ slots, t.shown on = .ok slots → ∀ r, some r ∉ slots

theorem course_shuns (bare : t.scanner.Straight strategy source →
    t.scanner.isPlain source = .ok true → t.Bare source) (fuel : Nat) :
    Always t.scanner.Shuns (t.course fuel strategy source) := by
  refine course_always ⟨fun _ => True.intro, fun _ _ => True.intro, ?_⟩ fuel
  intro index on own other slots part called shown standsFor given sub plain r member
  rcases called with notPlain | ⟨rfl, straight⟩
  · rw [notPlain] at plain
    cases plain
  · exact bare straight plain own shown other standsFor slots given r (sub r member)

theorem element_deliveries {slots : List Slot} (shown : t.shown source = .ok slots) :
    Event.deliveries ((t.element source).run 0).events = [⟨0, source, slots⟩] := by
  unfold element
  rw [declared_eq_ask, shown]
  rfl

theorem memberAlone_deliveries {id : MemberId} {own : List Slot}
    (shown : t.shown (.member id) = .ok own) :
    ∃ rest, Event.deliveries ((t.memberAlone id).run 0).events = ⟨0, .member id, own⟩ :: rest ∧
      ∀ original slots, t.scanner.catalog.bridged id = .ok original → original ≠ id →
        t.shown (.member original) = .ok slots →
          ⟨0, .member id, Scan.withoutShown own slots⟩ ∈ rest := by
  unfold memberAlone memberRecords
  simp only [declared_eq_ask, shown, ask_ok]
  cases known : t.scanner.catalog.bridged id with
  | error e => exact ⟨_, rfl, fun _ _ none => by cases none⟩
  | ok original =>
    rw [ask_ok]
    split
    · rename_i itself
      refine ⟨_, rfl, fun other _ same further => ?_⟩
      cases same
      exact absurd itself further
    · cases given : t.shown (.member original) with
      | error e =>
        refine ⟨_, rfl, fun other slots same _ shown => ?_⟩
        cases same
        rw [given] at shown
        cases shown
      | ok others =>
        refine ⟨_, rfl, fun other slots same _ shown => ?_⟩
        cases same
        rw [given] at shown
        cases shown
        exact List.mem_singleton.mpr rfl

theorem some_mem_withoutShown {own slots : List Slot} {r : Record} (empty : ∀ r, some r ∉ own)
    (member : some r ∈ slots) : some r ∈ Scan.withoutShown own slots := by
  have unseen : own.contains (some r) = false := by
    rw [List.contains_eq_any_beq, List.any_eq_false]
    intro slot listed
    cases slot with
    | none => exact Bool.false_ne_true
    | some other => exact absurd listed (empty other)
  refine List.mem_map.mpr ⟨some r, member, ?_⟩
  rw [unseen]
  rfl

/-- What a straight scan finds to show it shows. -/
theorem shows_of_straight (straight : t.scanner.Straight strategy source) (offers : ¬t.Bare source)
    (fuel : Nat) :
    ∃ d ∈ Event.deliveries (t.events fuel strategy source), d.source = source ∧
      ∃ r, some r ∈ d.slots := by
  simp only [Bare, not_forall, not_not] at offers
  obtain ⟨own, shown, on, standsFor, slots, given, r, member⟩ := offers
  have element (single : on = source) (same : t.course fuel strategy source = t.element source) :
      ∃ d ∈ Event.deliveries (t.events fuel strategy source), d.source = source ∧
        ∃ r, some r ∈ d.slots := by
    subst single
    refine ⟨⟨0, on, slots⟩, ?_, rfl, r, member⟩
    rw [events, same, element_deliveries given]
    exact List.mem_singleton.mpr rfl
  cases source with
  | type id =>
    cases standsFor
    rcases straight with rfl | ⟨rfl, alone⟩
    · exact element rfl rfl
    · exact element rfl (inheritedType_of_alone alone fuel)
  | parameter owner index =>
    cases standsFor
    exact element rfl rfl
  | member id =>
    have same : t.events fuel strategy (.member id) = ((t.memberAlone id).run 0).events := by
      rcases straight with rfl | rfl <;> rfl
    obtain ⟨rest, calls, second⟩ := memberAlone_deliveries shown
    rw [same, calls]
    by_cases filled : ∃ r, some r ∈ own
    · exact ⟨_, List.mem_cons_self, rfl, filled⟩
    have empty : ∀ r, some r ∉ own := fun r listed => filled ⟨r, listed⟩
    cases standsFor with
    | itself =>
      rw [shown] at given
      cases given
      exact absurd member (empty r)
    | bridge known standsFor =>
      rename_i original decl
      have bridged : t.scanner.catalog.bridged id = .ok original := by
        rw [Catalog.bridged_of_known known, standsFor, Option.getD_some]
      have other : original ≠ id := by
        rintro rfl
        rw [shown] at given
        cases given
        exact empty r member
      have listed := second original slots bridged other given
      exact ⟨_, List.mem_cons_of_mem _ listed, rfl, r, some_mem_withoutShown empty member⟩

/-- A walk from a plain element that asks whether it is plain ends there. -/
theorem silent_of_plain (plain : t.scanner.isPlain source = .ok true)
    (asks : ¬t.scanner.Straight strategy source) (fuel : Nat) :
    Event.deliveries (t.events fuel strategy source) = [] := by
  have typeFrom (reach : Scan.Reach) (id : TypeId) (plain : t.scanner.isPlainType id = .ok true) :
      Event.deliveries ((t.typeFrom reach fuel id).run 0).events = [] := by
    cases fuel with
    | zero => rfl
    | succ fuel =>
      unfold Terrain.typeFrom
      rw [plain]
      rfl
  have inheritedFrom (id : TypeId) (plain : t.scanner.isPlainType id = .ok true) :
      t.inheritedFrom id fuel id 0 none = pure () := by
    cases fuel with
    | zero => rfl
    | succ fuel =>
      unfold Terrain.inheritedFrom
      rw [plain]
      split
      · rfl
      · rfl
  have memberUpward (interfaces : Bool) (id : MemberId)
      (plain : t.scanner.isPlain (.member id) = .ok true) :
      Event.deliveries ((t.memberUpward interfaces fuel id).run 0).events = [] := by
    obtain ⟨decl, known, plain⟩ := bind_ok plain
    simp only [Terrain.memberUpward, known]
    cases fuel with
    | zero => rfl
    | succ fuel =>
      unfold memberFrom
      rw [plain]
      rfl
  cases source with
  | type id =>
    cases strategy with
    | direct => exact absurd (.inl rfl) asks
    | superclass | hierarchy | enclosing => exact typeFrom _ id plain
    | inherited =>
      show Event.deliveries ((t.inheritedType fuel id).run 0).events = []
      unfold inheritedType
      rw [inheritedFrom id plain]
      rcases alone : t.scanner.catalog.isWithoutHierarchy .inherited (.type id) with e | _ | _
      · rfl
      · rfl
      · exact absurd (.inr ⟨rfl, alone⟩) asks
  | member id =>
    cases strategy with
    | direct => exact absurd (.inl rfl) asks
    | inherited => exact absurd (.inr rfl) asks
    | superclass | hierarchy | enclosing => exact memberUpward _ id plain
  | parameter owner index => exact absurd True.intro asks

end Terrain

namespace Scan

/-- A plain element is known to be empty and a walk that asks for it ends there, so its records are
    shown just where a scan goes straight to it. -/
theorem plain_sources (s : Scanner) (rejects : TypeId → Bool) (strategy : Strategy)
    (source : Element) :
    (s.isPlain source = .ok true → ∀ history,
      (s.isKnownEmpty strategy source (s.memoAfter history)).answer = some true) ∧
    (s.isPlain source = .ok true → ¬s.Straight strategy source →
      ∀ (σ ο : Type) (visitor : Visitor σ ο) (history : List Operation),
        Event.deliveries (logAfter ⟨s, visitor, rejects⟩ history strategy source) = []) ∧
    ((∀ (σ ο : Type) (visitor : Visitor σ ο) (history : List Operation),
      ∀ d ∈ Event.deliveries (logAfter ⟨s, visitor, rejects⟩ history strategy source),
        s.isPlain d.source = .ok true → ∀ r, some r ∉ d.slots) ↔
      (s.Straight strategy source → s.isPlain source = .ok true →
        Terrain.Bare ⟨s, rejects⟩ source)) := by
  refine ⟨fun plain history => ?_, fun plain asks σ ο visitor history => ?_, fun shuns => ?_,
    fun bare σ ο visitor history d member plain => ?_⟩
  · have seen := (s.isKnownEmpty_seen strategy source (s.memoAfter_faithful history)).1
    have empty : s.freshKnownEmpty strategy source = .ok true := by
      simp only [Scanner.freshKnownEmpty, plain, Bind.bind, Except.bind]
      rfl
    rw [empty] at seen
    exact congrArg Prod.fst seen
  · let scan : Scan σ ο := ⟨s, visitor, rejects⟩
    have silent := Terrain.silent_of_plain (t := scan.terrain) plain asks scan.depth
    obtain ⟨rest, split⟩ := scan.logAfter_prefix history strategy source
    rw [← split, Event.deliveries_append] at silent
    exact (List.append_eq_nil_iff.mp silent).1
  · intro straight plain
    by_contra offers
    let scan : Scan (List Level) (List Level) := ⟨s, .levels, rejects⟩
    obtain ⟨d, member, same, r, shown⟩ :=
      Terrain.shows_of_straight (t := scan.terrain) straight offers scan.depth
    rw [← scan.logAfter_of_patient [] strategy source Visitor.levels_patient] at member
    exact shuns _ _ .levels [] d member (same ▸ plain) r shown
  · let scan : Scan σ ο := ⟨s, visitor, rejects⟩
    obtain ⟨event, logged, same⟩ := List.mem_filterMap.mp member
    have happened := (scan.logAfter_prefix history strategy source).subset logged
    have shuns := Terrain.course_shuns (t := scan.terrain) bare scan.depth 0 event happened
    cases event with
    | enter _ | failure _ _ => cases same
    | records index on slots =>
      cases same
      exact shuns plain

def support : Scan (List Level) (List Level) where
  scanner := ⟨.ofDecls [Catalog.rootDecl,
    ⟨⟨1⟩, "mark.Seen", .recordKind, [], none, [], none, false, true⟩,
    ⟨⟨2⟩, "lang.Support", .classType, [], some ⟨⟨0⟩, []⟩, [], none, false, true⟩]
    [] [(.type ⟨2⟩, .ofKind ⟨1⟩)], {}⟩
  visitor := .levels
  rejects _ := false

/-- A scan of the plain class alone shows its record, though it is known to be empty. -/
theorem support_shows_plain :
    support.scanner.catalog.Acyclic ∧ support.scanner.isPlain (.type ⟨2⟩) = .ok true ∧
      (support.scanner.isKnownEmpty .direct (.type ⟨2⟩) .empty).answer = some true ∧
      ¬∀ d ∈ Event.deliveries (support.logAfter [] .direct (.type ⟨2⟩)),
        support.scanner.isPlain d.source = .ok true → ∀ r, some r ∉ d.slots := by
  have falls : support.scanner.catalog.Falls TypeDecl.links TypeId.index := by decide
  refine ⟨falls.acyclic, rfl, rfl, fun shuns => ?_⟩
  rw [support.logAfter_of_patient [] .direct _ Visitor.levels_patient] at shuns
  have calls : Event.deliveries (support.terrain.events support.depth .direct (.type ⟨2⟩)) =
      [⟨0, .type ⟨2⟩, [some (.ofKind ⟨1⟩)]⟩] := rfl
  rw [calls] at shuns
  exact shuns _ List.mem_cons_self rfl _ List.mem_cons_self

end Scan

end Lineage
