import Lineage.Proofs.Scan.Branches
import Lineage.Proofs.Scan.Rungs

namespace Lineage

namespace TypeDecl

def implemented (d : TypeDecl) : List TypeId := d.interfaces.map (·.target)

end TypeDecl

namespace Level

def content (l : Level) : Element × List Record := (l.source, l.records)

structure Covers (wide narrow : Level) : Prop where
  index : wide.index = narrow.index
  source : wide.source = narrow.source
  records : narrow.records.Sublist wide.records

theorem Covers.refl (l : Level) : Covers l l := ⟨rfl, rfl, .refl _⟩

end Level

namespace Event

def contents (log : List Event) : List (Element × List Record) := (levels log).map Level.content

theorem contents_append (first rest : List Event) :
    contents (first ++ rest) = contents first ++ contents rest := by
  rw [contents, levels_append, List.map_append]
  rfl

theorem contents_records (index : Nat) (source : Element) (slots : List Slot) (rest : List Event) :
    contents (.records index source slots :: rest) =
      (if (slots.filterMap id).isEmpty then [] else [(source, slots.filterMap id)]) ++
        contents rest := by
  rw [contents, levels_records, List.map_append, Level.of?]
  split
  · rfl
  · rfl

end Event

theorem Level.of?_covers {index : Nat} {source : Element} {narrow wide : List Record}
    (sub : narrow.Sublist wide) {l : Level} (shown : of? index source narrow = some l) :
    ∃ k, of? index source wide = some k ∧ k.Covers l := by
  obtain ⟨some, same⟩ := Option.ite_none_left_eq_some.mp shown
  cases same
  have more : ¬wide.isEmpty = true := by
    intro none
    rw [List.isEmpty_iff.mp none] at sub
    exact some (List.isEmpty_iff.mpr (List.sublist_nil.mp sub))
  exact ⟨_, if_neg more, ⟨rfl, rfl, sub⟩⟩

namespace Course

variable {c d : Course Unit}

/-- Whatever one course shows another shows as well, in the same order, and it ends early only where
    the first one does. -/
structure Within (c d : Course Unit) : Prop where
  contents : ∀ i j, (Event.contents (c.run i).events).Sublist (Event.contents (d.run j).events)
  ends : ∀ i j, (c.run i).answer = .ok () → (d.run j).answer = .ok ()

theorem Within.of_silent (silent : ∀ i, Event.contents (c.run i).events = [])
    (ends : ∀ j, (d.run j).answer = .ok ()) : Within c d where
  contents i j := by
    rw [silent i]
    exact List.nil_sublist _
  ends _ j _ := ends j

theorem Within.of_error {e : QueryError} (failed : ∀ i, c.run i = ⟨.error e, i, []⟩) : Within c d where
  contents i j := by
    rw [failed i]
    exact List.nil_sublist _
  ends i j ended := by
    rw [failed i] at ended
    cases ended

theorem Within.append {after later : Course Unit} (first : Within c d) (rest : Within after later) :
    Within (c >>= fun _ => after) (d >>= fun _ => later) where
  contents i j := by
    have here := first.contents i j
    cases ended : (c.run i).answer with
    | error e =>
      rw [run_bind_of_error ended]
      cases other : (d.run j).answer with
      | error e =>
        rw [run_bind_of_error other]
        exact here
      | ok _ =>
        rw [run_bind_of_ok other, Event.contents_append]
        exact here.trans (List.sublist_append_left _ _)
    | ok _ =>
      rw [run_bind_of_ok ended, run_bind_of_ok (first.ends i j ended), Event.contents_append,
        Event.contents_append]
      exact here.append (rest.contents _ _)
  ends i j ended := by
    cases here : (c.run i).answer with
    | error e =>
      rw [run_bind_of_error here] at ended
      cases ended
    | ok _ =>
      rw [run_bind_of_ok here] at ended
      rw [run_bind_of_ok (first.ends i j here)]
      exact rest.ends _ _ ended

theorem Within.contain (within : Within c d) (on : Element) :
    Within (c.contain on) (d.contain on) where
  contents i j := by
    rw [Event.contents, Event.contents, levels_contain, levels_contain]
    exact within.contents i j
  ends _ j _ := contain_answer on d j

theorem Within.conforms : Conforms Within where
  nothing := .of_silent (fun _ => rfl) fun _ => rfl
  unasked _ := ⟨fun _ _ => .refl _, fun _ _ ended => ended⟩
  report _ _ := .of_silent (fun _ => rfl) fun _ => rfl
  append := .append

theorem Within.entering (rest : Within c d) :
    Within (do enter (← index); c) (do enter (← index); d) := by
  have here : Within (do enter (← index)) (do enter (← index)) :=
    .of_silent (fun _ => rfl) fun _ => rfl
  exact here.append rest

theorem Within.showing (on : Element) (slots : List Slot) (rest : Within c d) :
    Within (do deliver (← index) on slots; advance; c)
      (do deliver (← index) on slots; advance; d) := by
  let here : Course Unit := do
    deliver (← index) on slots
    advance
  have contents (i j : Nat) :
      (Event.contents (here.run i).events).Sublist (Event.contents (here.run j).events) := by
    show (Event.contents [.records i on slots]).Sublist (Event.contents [.records j on slots])
    rw [Event.contents_records, Event.contents_records]
  have first : Within here here := ⟨contents, fun _ _ _ => rfl⟩
  exact first.append rest

end Course

namespace Terrain

open Course

variable {t : Terrain} {source id : TypeId} {narrow wide : Scan.Reach} {fuel : Nat}

theorem typeFrom_within
    (onward : Within
      (do
        t.sideways narrow.interfaces (t.typeFrom narrow fuel) id
        t.upward (t.typeFrom narrow fuel) id
        t.outward narrow.enclosing (t.typeFrom narrow fuel) id)
      (do
        t.sideways wide.interfaces (t.typeFrom wide fuel) id
        t.upward (t.typeFrom wide fuel) id
        t.outward wide.enclosing (t.typeFrom wide fuel) id)) :
    Within (t.typeFrom narrow (fuel + 1) id) (t.typeFrom wide (fuel + 1) id) := by
  unfold typeFrom
  rw [declared_eq_ask]
  refine .contain (.entering ?_) _
  cases t.scanner.isPlainType id with
  | error e =>
    rw [ask_error, ask_error]
    exact Within.conforms.unasked e
  | ok plain =>
    rw [ask_ok, ask_ok]
    cases plain with
    | true => exact Within.conforms.nothing
    | false =>
      rw [if_neg Bool.false_ne_true, if_neg Bool.false_ne_true]
      cases t.shown (.type id) with
      | error e =>
        rw [ask_error, ask_error]
        exact Within.conforms.unasked e
      | ok slots =>
        rw [ask_ok, ask_ok]
        exact .showing _ slots onward

theorem outward_answer {walk : TypeId → Course Unit}
    (ends : ∀ id level, ((walk id).run level).answer = .ok ()) (enclosing : Bool) (level : Nat) :
    ((t.outward enclosing walk id).run level).answer = .ok () := by
  unfold outward
  split
  · split
    · exact ends _ level
    · rfl
    · rfl
  · rfl

/-- Types around others only add to what a walk of their hierarchy shows. -/
theorem hierarchy_within_enclosing (fuel : Nat) (id : TypeId) :
    Within (t.typeFrom ⟨true, false⟩ fuel id) (t.typeFrom ⟨true, true⟩ fuel id) := by
  induction fuel generalizing id with
  | zero => exact Within.conforms.nothing
  | succ fuel ih =>
    have outward : Within (t.outward false (t.typeFrom ⟨true, false⟩ fuel) id)
        (t.outward true (t.typeFrom ⟨true, true⟩ fuel) id) := by
      refine .of_silent (fun _ => rfl) fun level => ?_
      exact outward_answer (t.typeFrom_answer ⟨true, true⟩ fuel) true level
    have sideways : Within (t.sideways true (t.typeFrom ⟨true, false⟩ fuel) id)
        (t.sideways true (t.typeFrom ⟨true, true⟩ fuel) id) :=
      Within.conforms.sideways rfl (fun next _ => ih next) true
    have upward : Within (t.upward (t.typeFrom ⟨true, false⟩ fuel) id)
        (t.upward (t.typeFrom ⟨true, true⟩ fuel) id) :=
      Within.conforms.upward rfl fun next _ => ih next
    exact typeFrom_within (sideways.append (upward.append outward))

/-- Interfaces only add to what a walk of superclasses shows, where all of them can be loaded. -/
theorem superclass_within_hierarchy (fuel : Nat)
    (loads : ∀ type other, t.scanner.catalog.Reaches TypeDecl.superLinks id type →
      t.scanner.catalog.Leads TypeDecl.implemented type other →
      t.scanner.catalog.isPresent other = true) :
    Within (t.typeFrom ⟨false, false⟩ fuel id) (t.typeFrom ⟨true, false⟩ fuel id) := by
  induction fuel generalizing id with
  | zero => exact Within.conforms.nothing
  | succ fuel ih =>
    cases loaded : t.scanner.catalog.load id with
    | error e =>
      -- there is nothing above a type that cannot be loaded, and both walks end there
      have missing : t.scanner.catalog.superclass id = .error e := by
        simp only [Catalog.superclass, loaded, Bind.bind, Except.bind]
      refine typeFrom_within (.of_error (e := e) fun i => ?_)
      unfold upward properSuperclass
      rw [missing]
      rfl
    | ok decl =>
      have found := (Catalog.present_of_load loaded).1
      have known := Catalog.interfaces_of_present loaded fun other linked =>
        loads id other .refl ⟨decl, found, linked⟩
      have sideways : Within (t.sideways false (t.typeFrom ⟨false, false⟩ fuel) id)
          (t.sideways true (t.typeFrom ⟨true, false⟩ fuel) id) := by
        refine .of_silent (fun _ => rfl) fun level => ?_
        unfold Terrain.sideways
        rw [if_pos rfl, known]
        exact forM_answer (t.typeFrom_answer ⟨true, false⟩ fuel) _ level
      have upward : Within (t.upward (t.typeFrom ⟨false, false⟩ fuel) id)
          (t.upward (t.typeFrom ⟨true, false⟩ fuel) id) := by
        refine Within.conforms.upward rfl fun next known => ih fun type other reached leads => ?_
        exact loads type other (.head (Catalog.leads_of_superclass known) reached) leads
      exact typeFrom_within (sideways.append (upward.append Within.conforms.nothing))

theorem superclass_levels {slots : List Slot} (notPlain : t.scanner.isPlainType id = .ok false)
    (own : t.shown (.type id) = .ok slots) (fuel i : Nat) :
    Event.levels ((t.typeFrom ⟨false, false⟩ (fuel + 1) id).run i).events =
      Event.levels (.records i (.type id) slots ::
        ((t.upward (t.typeFrom ⟨false, false⟩ fuel) id).run (i + 1)).events) := by
  let onward := t.upward (t.typeFrom ⟨false, false⟩ fuel) id
  have body : t.typeFrom ⟨false, false⟩ (fuel + 1) id = contain (.type id) (do
      enter (← index)
      deliver (← index) (.type id) slots
      advance
      onward) := by
    unfold typeFrom
    rw [notPlain, declared_eq_ask, own]
    simp only [ask_ok, Bool.false_eq_true, ↓reduceIte, sideways, outward, pure_bind, bind_pure_unit]
    rfl
  rw [body, levels_contain]
  rfl

theorem inheritedFrom_of_root (fuel index : Nat) (claims : Option Scan.Claims) (i : Nat) :
    ((t.inheritedFrom source fuel Catalog.root index claims).run i).events = [] := by
  cases fuel with
  | zero => rfl
  | succ fuel =>
    unfold inheritedFrom
    simp only [decide_true, Bool.true_or, ↓reduceIte]
    rfl

theorem inheritedFrom_covered (fuel : Nat) (id : TypeId) (index : Nat) (claims : Option Scan.Claims)
    (i : Nat) : ∀ l ∈ Event.levels ((t.inheritedFrom source fuel id index claims).run i).events,
      ∃ k ∈ Event.levels ((t.typeFrom ⟨false, false⟩ fuel id).run index).events, k.Covers l := by
  -- the rung's index is the level at which a walk of superclasses visits the type
  induction fuel generalizing id index claims i with
  | zero => exact fun l none => by cases none
  | succ fuel ih =>
    have silent {log : List Event} (none : Event.levels log = []) (l : Level)
        (member : l ∈ Event.levels log) :
        ∃ k ∈ Event.levels ((t.typeFrom ⟨false, false⟩ (fuel + 1) id).run index).events,
          k.Covers l := by
      rw [none] at member
      cases member
    unfold inheritedFrom
    rw [levels_contain]
    split
    · exact silent rfl
    cases notPlain : t.scanner.isPlainType id with
    | error e => exact silent rfl
    | ok plain =>
      rw [ask_ok]
      cases plain with
      | true => exact silent rfl
      | false =>
        rw [if_neg Bool.false_ne_true]
        have entered : (enter index).run i = ⟨.ok (), i, [.enter index]⟩ := rfl
        rw [run_bind_of_ok (a := ()) (by rw [entered]), entered]
        rcases t.inheritedLevel_cases source id index claims i with
          ⟨e, ran⟩ | ⟨after, slots, log, own, ran, calls⟩
        · rw [run_bind_of_error (e := e) (by rw [ran]), ran]
          exact silent rfl
        · rw [run_bind_of_ok (a := after) (by rw [ran]), ran]
          intro l member
          rw [superclass_levels notPlain own, Event.levels_records]
          have member : l ∈ Event.levels (log ++ _) := member
          rw [Event.levels_append, List.mem_append] at member
          rcases member with here | above
          · rcases calls with rfl | ⟨part, rfl, sub⟩
            · cases here
            · rw [Event.levels_call] at here
              obtain ⟨k, shown, covers⟩ := Level.of?_covers sub (Option.mem_toList.mp here)
              exact ⟨k, List.mem_append_left _ (Option.mem_toList.mpr shown), covers⟩
          · cases known : t.scanner.catalog.superclass id with
            | error e =>
              rw [known] at above
              cases above
            | ok extended =>
              rw [known, ask_ok] at above
              cases extended with
              | none => cases above
              | some next =>
                by_cases isRoot : next = Catalog.root
                · rw [isRoot, inheritedFrom_of_root] at above
                  cases above
                · obtain ⟨k, shown, covers⟩ := ih next (index + 1) after i l above
                  refine ⟨k, List.mem_append_right _ ?_, covers⟩
                  have proper : (some next).filter (· != Catalog.root) = some next := by
                    rw [Option.filter_some, if_pos (bne_iff_ne.mpr isRoot)]
                  unfold upward properSuperclass
                  rw [known, ask_ok, pure_bind, proper]
                  exact shown

theorem inheritedType_covered (notPlain : t.scanner.isPlainType source = .ok false) (fuel : Nat) :
    ∀ l ∈ Event.levels ((t.inheritedType (fuel + 1) source).run 0).events,
      ∃ k ∈ Event.levels ((t.typeFrom ⟨false, false⟩ (fuel + 1) source).run 0).events,
        k.Covers l := by
  unfold inheritedType
  rw [levels_contain]
  cases t.scanner.catalog.isWithoutHierarchy .inherited (.type source) with
  | error e => exact fun l none => by cases none
  | ok alone =>
    rw [ask_ok]
    cases alone with
    | false => exact inheritedFrom_covered (fuel + 1) source 0 none 0
    | true =>
      intro l member
      rw [if_pos rfl] at member
      unfold element at member
      rw [levels_contain, declared_eq_ask] at member
      cases own : t.shown (.type source) with
      | error e =>
        rw [own] at member
        cases member
      | ok slots =>
        rw [own] at member
        have here : l ∈ Event.levels [.records 0 (.type source) slots] := member
        rw [Event.levels_records, List.mem_append] at here
        rw [superclass_levels notPlain own, Event.levels_records]
        rcases here with here | none
        · exact ⟨l, List.mem_append_left _ here, .refl l⟩
        · cases none

end Terrain

namespace Scan

/-- Scans of a type nest: what an inherited walk shows is at the same place in a walk of superclasses,
    types around others only add to a hierarchy, and so do interfaces if they can be loaded. -/
theorem strategies_nested (s : Scanner) (rejects : TypeId → Bool)
    (history : Strategy → List Operation) {source : TypeId}
    (notPlain : s.isPlainType source = .ok false) :
    let scan : Scan (List Level) (List Level) := ⟨s, .levels, rejects⟩
    ∃ levels : Strategy → List Level,
      (∀ strategy, (scan.run strategy (.type source) (s.memoAfter (history strategy))).answer =
        some (levels strategy)) ∧
      (∀ l ∈ levels .inherited, ∃ k ∈ levels .superclass, k.Covers l) ∧
      ((levels .hierarchy).map Level.content).Sublist ((levels .enclosing).map Level.content) ∧
      ((∀ type other, s.catalog.Reaches TypeDecl.superLinks source type →
          s.catalog.Leads TypeDecl.implemented type other → s.catalog.isPresent other = true) →
        ((levels .superclass).map Level.content).Sublist
          ((levels .hierarchy).map Level.content)) := by
  intro scan
  let t := scan.terrain
  refine ⟨fun strategy => Event.levels (t.events scan.depth strategy (.type source)),
    fun strategy => answer_run_levels s rejects (history strategy) strategy _, ?_, ?_, ?_⟩
  · obtain ⟨name, named, _⟩ := bind_ok notPlain
    obtain ⟨decl, found, _⟩ := bind_ok named
    have issued := Catalog.index_lt_of_type? (Catalog.type?_of_typeDecl found)
    have deep : 0 < scan.depth := (Nat.zero_lt_of_lt issued).trans_le scan.typeCount_le_depth
    obtain ⟨fuel, deep⟩ := Nat.exists_eq_add_one.mpr deep
    rw [deep]
    exact t.inheritedType_covered notPlain fuel
  · exact (t.hierarchy_within_enclosing scan.depth source).contents 0 0
  · intro loads
    exact (t.superclass_within_hierarchy scan.depth loads).contents 0 0

def nested : Scanner where
  catalog := .ofDecls [Catalog.rootDecl,
    ⟨⟨1⟩, "mark.Seen", .recordKind, [], none, [], none, true, true⟩,
    ⟨⟨2⟩, "shape.Outer", .classType, [], none, [], none, false, true⟩,
    ⟨⟨3⟩, "shape.Store", .interface, [], none, [], none, false, true⟩,
    ⟨⟨4⟩, "shape.Base", .classType, [], some ⟨⟨0⟩, []⟩, [⟨⟨3⟩, []⟩], none, false, true⟩,
    ⟨⟨5⟩, "shape.Low", .classType, [], some ⟨⟨4⟩, []⟩, [], some ⟨2⟩, false, true⟩]
    [] [(.type ⟨2⟩, .ofKind ⟨1⟩), (.type ⟨3⟩, .ofKind ⟨1⟩), (.type ⟨4⟩, .ofKind ⟨1⟩),
      (.type ⟨5⟩, .ofKind ⟨1⟩)]
  settings := {}

theorem nested_levels_nest :
    nested.isPlainType ⟨5⟩ = .ok false ∧
      let scan : Scan (List Level) (List Level) := ⟨nested, .levels, fun id => id = ⟨4⟩⟩
      ∃ levels : Strategy → List Level,
        (∀ strategy, (scan.run strategy (.type ⟨5⟩) (nested.memoAfter [.clear])).answer =
          some (levels strategy)) ∧
        (∀ l ∈ levels .inherited, ∃ k ∈ levels .superclass, k.Covers l) ∧
        ((levels .hierarchy).map Level.content).Sublist ((levels .enclosing).map Level.content) ∧
        ((levels .superclass).map Level.content).Sublist
          ((levels .hierarchy).map Level.content) := by
  have descends : nested.catalog.Descends TypeDecl.links TypeId.index := by decide
  have notPlain : nested.isPlainType ⟨5⟩ = .ok false := rfl
  obtain ⟨levels, answers, covered, around, implemented⟩ :=
    strategies_nested nested (fun id => id = ⟨4⟩) (fun _ => [.clear]) notPlain
  refine ⟨notPlain, levels, answers, covered, around, implemented fun type other _ leads => ?_⟩
  obtain ⟨decl, found, member⟩ := leads
  have linked : other ∈ decl.links := List.mem_append_left _ (List.mem_append_left _ member)
  exact (descends.leads ⟨decl, found, linked⟩).2

end Scan

end Lineage
