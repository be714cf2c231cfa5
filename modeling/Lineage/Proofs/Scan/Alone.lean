import Lineage.Proofs.Catalog.Built
import Lineage.Proofs.Scan.Deliveries

namespace Lineage

namespace Catalog

variable {c : Catalog} {id : TypeId} {strategy : Strategy}

structure RootOnTop (c : Catalog) : Prop where
  superclass : c.superclass root = .ok none
  interfaces : c.interfaces root = .ok []
  enclosing : c.enclosing root = .ok none

structure EndsWalks (c : Catalog) (strategy : Strategy) (id : TypeId) : Prop where
  superclass : ∃ above, c.superclass id = .ok above ∧ above.filter (· != root) = none
  interfaces : c.interfaces id = .ok []
  enclosing : strategy = .enclosing → c.enclosing id = .ok none

theorem RootOnTop.endsWalks (onTop : c.RootOnTop) : c.EndsWalks strategy root :=
  ⟨⟨none, onTop.superclass, rfl⟩, onTop.interfaces, fun _ => onTop.enclosing⟩

theorem RootOnTop.typeCount_pos (onTop : c.RootOnTop) : 0 < c.typeCount := by
  obtain ⟨decl, loaded, _⟩ := bind_ok onTop.superclass
  exact Nat.zero_lt_of_lt (index_lt_of_type? (type?_of_typeDecl (typeDecl_of_load loaded)))

theorem endsWalks_of_isTopType (onTop : c.RootOnTop) (top : c.isTopType id strategy = .ok true) :
    c.EndsWalks strategy id := by
  unfold isTopType at top
  split at top
  · rename_i isRoot
    exact isRoot ▸ onTop.endsWalks
  · obtain ⟨above, asked, top⟩ := bind_ok top
    split at top
    · rename_i onlyRoot
      obtain ⟨ids, implements, top⟩ := bind_ok top
      have proper : above.filter (· != root) = none := by
        rw [Option.filter_eq_none_iff]
        intro b member
        rw [Option.all_eq_true] at onlyRoot
        have isRoot := onlyRoot b member
        simp only [decide_eq_true_eq] at isRoot
        simp [isRoot]
      cases ids with
      | cons next rest => cases top
      | nil =>
        refine ⟨⟨above, asked, proper⟩, implements, fun around => ?_⟩
        subst around
        obtain ⟨outer, known, none⟩ := bind_ok top
        cases outer with
        | none => exact known
        | some outer => cases none
    · cases top

end Catalog

theorem Course.contain_events_of_still {c rest : Course Unit} {on : Element} {i : Nat}
    (still : ∀ i, ∃ last, rest.run i = ⟨.ok (), last, []⟩) :
    ((contain on (c >>= fun _ => rest)).run i).events = ((contain on c).run i).events := by
  cases ended : (c.run i).answer with
  | error e =>
    have whole := run_bind_of_error ended fun _ => rest
    rw [run_contain_of_error ended, run_contain_of_error (congrArg Passage.answer whole), whole]
  | ok u =>
    obtain ⟨last, ran⟩ := still (c.run i).index
    have whole := run_bind_of_ok ended fun _ => rest
    rw [ran] at whole
    rw [run_contain_of_ok ended, run_contain_of_ok (congrArg Passage.answer whole), whole]
    exact List.append_nil _

namespace Terrain

open Course

variable {t : Terrain} {id : TypeId} {strategy : Strategy} {reach : Scan.Reach}
  {walk : TypeId → Course Unit}

section

variable (ends : t.scanner.catalog.EndsWalks strategy id)
include ends

theorem sideways_of_endsWalks (interfaces : Bool) : t.sideways interfaces walk id = pure () := by
  unfold sideways
  rw [ends.interfaces]
  cases interfaces <;> rfl

theorem upward_of_endsWalks : t.upward walk id = pure () := by
  obtain ⟨above, asked, proper⟩ := ends.superclass
  unfold upward properSuperclass
  rw [asked, ask_ok, pure_bind, proper]

theorem outward_of_endsWalks {enclosing : Bool} (reaches : enclosing = true → strategy = .enclosing) :
    t.outward enclosing walk id = pure () := by
  unfold outward
  cases enclosing with
  | false => rfl
  | true =>
    rw [ends.enclosing (reaches rfl)]
    rfl

/-- A walk of types from one where it ends is the type alone. -/
theorem typeFrom_of_endsWalks {fuel : Nat} (some : 0 < fuel)
    (reaches : reach.enclosing = true → strategy = .enclosing)
    (notPlain : t.scanner.isPlainType id = .ok false) :
    ((t.typeFrom reach fuel id).run 0).events = ((t.element (.type id)).run 0).events := by
  obtain ⟨fuel, rfl⟩ := Nat.exists_eq_add_of_lt some
  rw [Nat.zero_add]
  unfold typeFrom element
  rw [notPlain, sideways_of_endsWalks ends, upward_of_endsWalks ends,
    outward_of_endsWalks ends reaches, declared_eq_ask]
  cases t.shown (.type id) <;> rfl

end

/-- A walk in search of overridden members is the member alone if it is private or the walk ends
    with its type. -/
theorem memberFrom_of_endsWalks {member : MemberId} {decl : MemberDecl} {fuel : Nat}
    (some : 0 < fuel) (known : t.scanner.catalog.memberDecl member = .ok decl)
    (notPlain : t.scanner.isPlainType decl.declaring = .ok false)
    (ends : decl.isPrivate = false → t.scanner.catalog.EndsWalks strategy decl.declaring)
    (interfaces : Bool) :
    ((t.memberFrom interfaces member fuel decl.declaring).run 0).events =
      ((t.memberAlone member).run 0).events := by
  obtain ⟨fuel, rfl⟩ := Nat.exists_eq_add_of_lt some
  rw [Nat.zero_add]
  -- after its records the walk can only count the level
  have after : ∃ rest : Course Unit, (∀ i, ∃ last, rest.run i = ⟨.ok (), last, []⟩) ∧
      t.memberFrom interfaces member (fuel + 1) decl.declaring = contain (.member member)
        ((do enter (← index); t.memberRecords (← index) member) >>= fun _ => rest) := by
    unfold memberFrom
    simp only [notPlain, known, ask_ok, memberLevel, ↓reduceIte, Bool.false_eq_true, bind_assoc,
      pure_bind]
    cases hidden : decl.isPrivate with
    | true => exact ⟨pure (), fun i => ⟨i, rfl⟩, rfl⟩
    | false =>
      rw [sideways_of_endsWalks (ends hidden), upward_of_endsWalks (ends hidden)]
      exact ⟨advance, fun i => ⟨i + 1, rfl⟩, rfl⟩
  obtain ⟨rest, still, same⟩ := after
  rw [same, contain_events_of_still still]
  rfl

theorem element_answer (e : Element) (i : Nat) : ((t.element e).run i).answer = .ok () := by
  unfold element
  rw [declared_eq_ask]
  cases t.shown e <;> rfl

theorem inheritedType_of_alone
    (alone : t.scanner.catalog.isWithoutHierarchy .inherited (.type id) = .ok true) (fuel : Nat) :
    t.inheritedType fuel id = t.element (.type id) := by
  unfold inheritedType
  rw [alone, ask_ok, if_pos rfl]
  exact Course.ext fun i => run_contain_of_ok (element_answer _ i) _

/-- Any walk from an element without a hierarchy is the element alone. -/
theorem events_of_alone (onTop : t.scanner.catalog.RootOnTop) {source : Element}
    (notPlain : t.scanner.isPlain source = .ok false)
    (alone : t.scanner.catalog.isWithoutHierarchy strategy source = .ok true) {fuel : Nat}
    (some : 0 < fuel) : t.events fuel strategy source = t.events fuel .direct source := by
  cases source with
  | type id =>
    have ends := Catalog.endsWalks_of_isTopType onTop alone
    cases strategy with
    | direct => rfl
    | inherited =>
      show ((t.inheritedType fuel id).run 0).events = _
      rw [inheritedType_of_alone alone]
      rfl
    | superclass | hierarchy =>
      exact typeFrom_of_endsWalks ends some (fun never => by cases never) notPlain
    | enclosing => exact typeFrom_of_endsWalks ends some (fun _ => rfl) notPlain
  | member id =>
    obtain ⟨decl, known, plain⟩ := bind_ok notPlain
    have ends (visible : decl.isPrivate = false) :
        t.scanner.catalog.EndsWalks strategy decl.declaring := by
      have asked : t.scanner.catalog.isWithoutHierarchy strategy (.member id) =
          t.scanner.catalog.isTopType decl.declaring strategy := by
        simp only [Catalog.isWithoutHierarchy, known, Bind.bind, Except.bind, visible,
          Bool.false_eq_true, ↓reduceIte]
      exact Catalog.endsWalks_of_isTopType onTop (asked.symm.trans alone)
    have upward (interfaces : Bool) : t.memberUpward interfaces fuel id =
        t.memberFrom interfaces id fuel decl.declaring := by
      simp only [memberUpward, known]
    cases strategy with
    | direct | inherited => rfl
    | superclass =>
      show ((t.memberUpward false fuel id).run 0).events = _
      rw [upward]
      exact memberFrom_of_endsWalks some known plain ends false
    | hierarchy | enclosing =>
      show ((t.memberUpward true fuel id).run 0).events = _
      rw [upward]
      exact memberFrom_of_endsWalks some known plain ends true
  | parameter owner index => rfl

/-- An element that is no bridge and has nothing to show. -/
theorem direct_events_of_bare {source : Element} (fuel : Nat)
    (single : t.scanner.isBridge source = .ok false) (bare : t.shown source = .ok []) :
    t.events fuel .direct source = [.enter 0, .records 0 source []] := by
  cases source with
  | type id | parameter owner index =>
    show ((t.element _).run 0).events = _
    unfold element
    rw [declared_eq_ask, bare]
    rfl
  | member id =>
    obtain ⟨decl, known, own⟩ := bind_ok single
    have itself : t.scanner.catalog.bridged id = .ok id := by
      cases standsFor : decl.bridgeOf with
      | none =>
        rw [Catalog.bridged_of_known known, standsFor, Option.getD_none]
      | some original =>
        rw [MemberDecl.isBridge, standsFor] at own
        cases own
    show ((t.memberAlone id).run 0).events = _
    unfold memberAlone memberRecords
    rw [declared_eq_ask, bare, itself, ask_ok, ask_ok, if_pos rfl]
    rfl

end Terrain

namespace Scanner

variable {s : Scanner} {strategy : Strategy} {source : Element}

/-- An element that is not plain is known to be empty only if it has no hierarchy to walk, is no
    bridge and declares nothing. -/
theorem bare_of_freshKnownEmpty (empty : s.freshKnownEmpty strategy source = .ok true)
    (notPlain : s.isPlain source = .ok false) :
    (strategy = .direct ∨ s.catalog.isWithoutHierarchy strategy source = .ok true) ∧
      s.isBridge source = .ok false ∧ s.freshSlots source = .ok [] := by
  obtain ⟨plain, asked, empty⟩ := bind_ok empty
  rw [notPlain] at asked
  cases asked
  obtain ⟨alone, asked, empty⟩ := bind_ok empty
  cases alone with
  | false => cases empty
  | true =>
    obtain ⟨bridge, single, empty⟩ := bind_ok empty
    cases bridge with
    | true => cases empty
    | false =>
      obtain ⟨slots, known, none⟩ := bind_ok empty
      have bare : slots = [] := by
        cases slots with
        | nil => rfl
        | cons _ _ => cases none
      refine ⟨?_, single, bare ▸ known⟩
      by_cases direct : strategy = .direct
      · exact .inl direct
      · rw [if_neg direct] at asked
        exact .inr asked

end Scanner

namespace Scan

variable {σ ο : Type}

/-- What is known to be empty shows nothing, and nothing fails on the way. -/
theorem known_empty_shows_nothing (s : Scan σ ο) (before history : List Operation)
    {strategy : Strategy} {source : Element} (onTop : s.scanner.catalog.RootOnTop)
    (unfiltered : ∀ id, s.rejects id = false) (notPlain : s.scanner.isPlain source = .ok false)
    (empty : (s.scanner.isKnownEmpty strategy source (s.scanner.memoAfter before)).answer =
      some true) :
    (∀ d ∈ Event.deliveries (s.logAfter history strategy source), d.slots = []) ∧
      Event.failures (s.logAfter history strategy source) = [] := by
  have some : 0 < s.depth := onTop.typeCount_pos.trans_le s.typeCount_le_depth
  have fresh : s.scanner.freshKnownEmpty strategy source = .ok true := by
    have seen := (s.scanner.isKnownEmpty_seen strategy source (s.scanner.memoAfter_faithful before)).1
    have answer := congrArg Prod.fst seen
    rw [Outcome.seen, empty] at answer
    cases known : s.scanner.freshKnownEmpty strategy source with
    | ok empty =>
      rw [known] at answer
      cases answer
      rfl
    | error e =>
      rw [known] at answer
      cases answer
  obtain ⟨alone, single, slots⟩ := Scanner.bare_of_freshKnownEmpty fresh notPlain
  have bare : s.terrain.shown source = .ok [] := by
    rw [Terrain.shown_of_unfiltered unfiltered]
    exact slots
  have whole : s.terrain.events s.depth strategy source = [.enter 0, .records 0 source []] := by
    rcases alone with rfl | alone
    · exact Terrain.direct_events_of_bare s.depth single bare
    · rw [Terrain.events_of_alone (t := s.terrain) onTop notPlain alone some]
      exact Terrain.direct_events_of_bare s.depth single bare
  obtain ⟨rest, split⟩ := s.logAfter_prefix history strategy source
  rw [whole] at split
  have deliveries := congrArg Event.deliveries split
  have failures := congrArg Event.failures split
  rw [Event.deliveries_append] at deliveries
  rw [Event.failures_append] at failures
  constructor
  · intro d member
    have member := List.mem_append_left (Event.deliveries rest) member
    rw [deliveries] at member
    rw [List.mem_singleton.mp member]
  · exact (List.append_eq_nil_iff.mp failures).1

def hushed : Scan (List Level) (List Level) where
  scanner := ⟨.ofDecls [Catalog.rootDecl,
    ⟨⟨1⟩, "lang.Marked", .recordKind, [], none, [], none, false, true⟩,
    ⟨⟨2⟩, "shape.Parent", .classType, [], some ⟨⟨0⟩, []⟩, [], none, false, true⟩,
    ⟨⟨3⟩, "shape.Child", .classType, [], some ⟨⟨2⟩, []⟩, [], none, false, true⟩]
    [⟨⟨0⟩, "run", ⟨3⟩, .owner, [], .void, none, none⟩] [(.member ⟨0⟩, .ofKind ⟨1⟩)], {}⟩
  visitor := .levels
  rejects _ := false

theorem hushed_shows_nothing :
    (∀ d ∈ Event.deliveries (hushed.logAfter [.clear] .hierarchy (.member ⟨0⟩)), d.slots = []) ∧
      Event.failures (hushed.logAfter [.clear] .hierarchy (.member ⟨0⟩)) = [] := by
  have onTop : hushed.scanner.catalog.RootOnTop := ⟨rfl, rfl, rfl⟩
  have notPlain : hushed.scanner.isPlain (.member ⟨0⟩) = .ok false := rfl
  have empty : (hushed.scanner.isKnownEmpty .hierarchy (.member ⟨0⟩)
      (hushed.scanner.memoAfter [])).answer = some true := by decide
  exact known_empty_shows_nothing hushed [] [.clear] onTop (fun _ => rfl) notPlain empty

/-- A scan of an element without a hierarchy is the scan of the element alone, whatever the scanner
    was asked before either of them. -/
theorem run_of_alone (s : Scan σ ο) (history other : List Operation) {strategy : Strategy}
    {source : Element} (onTop : s.scanner.catalog.RootOnTop)
    (notPlain : s.scanner.isPlain source = .ok false)
    (alone : s.scanner.catalog.isWithoutHierarchy strategy source = .ok true) :
    let upward := s.run strategy source (s.scanner.memoAfter history)
    let direct := s.run .direct source (s.scanner.memoAfter other)
    upward.log = direct.log ∧ upward.answer = direct.answer := by
  have some : 0 < s.depth := onTop.typeCount_pos.trans_le s.typeCount_le_depth
  have events : s.terrain.events s.depth strategy source = s.terrain.events s.depth .direct source :=
    Terrain.events_of_alone (t := s.terrain) onTop notPlain alone some
  have watched : s.watched strategy source = s.watched .direct source :=
    congrArg (s.visitor.watch · s.visitor.start) events
  obtain ⟨after, _, ran⟩ := s.run_eq strategy source (s.scanner.memoAfter_faithful history)
  obtain ⟨directAfter, _, ranDirect⟩ := s.run_eq .direct source (s.scanner.memoAfter_faithful other)
  rw [ran, ranDirect, watched]
  exact ⟨rfl, rfl⟩

def secluded : Scan Unit Found where
  scanner := ⟨.ofDecls [Catalog.rootDecl,
    ⟨⟨1⟩, "mark.Seen", .recordKind, [], none, [], none, false, true⟩,
    ⟨⟨2⟩, "shape.Parent", .classType, [], some ⟨⟨0⟩, []⟩, [], none, false, true⟩,
    ⟨⟨3⟩, "shape.Child", .classType, [], some ⟨⟨2⟩, []⟩, [], none, false, true⟩]
    [⟨⟨0⟩, "run", ⟨2⟩, .everyone, [], .void, none, none⟩,
      ⟨⟨1⟩, "run", ⟨3⟩, .owner, [], .void, none, some ⟨0⟩⟩]
    [(.member ⟨0⟩, .ofKind ⟨1⟩), (.member ⟨1⟩, .ofKind ⟨1⟩)], {}⟩
  visitor := .firstOfKind ⟨1⟩
  rejects id := id = ⟨3⟩

theorem secluded_run :
    let upward := secluded.run .hierarchy (.member ⟨1⟩) (secluded.scanner.memoAfter [.clear])
    let direct := secluded.run .direct (.member ⟨1⟩) (secluded.scanner.memoAfter [])
    upward.log = direct.log ∧ upward.answer = direct.answer := by
  have onTop : secluded.scanner.catalog.RootOnTop := ⟨rfl, rfl, rfl⟩
  have notPlain : secluded.scanner.isPlain (.member ⟨1⟩) = .ok false := rfl
  have alone : secluded.scanner.catalog.isWithoutHierarchy .hierarchy (.member ⟨1⟩) = .ok true := rfl
  exact run_of_alone secluded [.clear] [] onTop notPlain alone

example : ((secluded.run .direct (.member ⟨1⟩) .empty).answer.map (·.source)) =
    some (.member ⟨1⟩) := by decide

end Scan

end Lineage
