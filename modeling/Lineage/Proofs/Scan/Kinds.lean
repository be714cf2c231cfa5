import Lineage.Proofs.Scan.Branches
import Lineage.Proofs.Scan.Rungs

namespace Lineage

def keepKind (kind : TypeId) (records : List Record) : List Record := records.filter (·.kind = kind)

theorem keepKind_cons (kind : TypeId) (r : Record) (rest : List Record) :
    keepKind kind (r :: rest) =
      if r.kind = kind then r :: keepKind kind rest else keepKind kind rest := by
  rw [keepKind, List.filter_cons]
  simp only [decide_eq_true_eq]
  rfl

theorem keepKind_append (kind : TypeId) (first rest : List Record) :
    keepKind kind (first ++ rest) = keepKind kind first ++ keepKind kind rest :=
  List.filter_append first rest

theorem tally_keepKind (other kind : TypeId) (records : List Record) :
    tally other (keepKind kind records) = if other = kind then tally other records else 0 := by
  rw [tally, keepKind, List.countP_filter]
  by_cases same : other = kind
  · subst same
    rw [if_pos rfl, tally]
    refine List.countP_congr fun r _ => ?_
    simp only [Bool.and_self]
  · rw [if_neg same, List.countP_eq_zero]
    intro r _ both
    rw [Bool.and_eq_true, decide_eq_true_eq, decide_eq_true_eq] at both
    exact same (both.1.symm.trans both.2)

def only (kind : TypeId) (left : TypeId → Nat) (other : TypeId) : Nat :=
  if other = kind then left other else 0

theorem only_tally (kind : TypeId) (records : List Record) :
    only kind (fun other => tally other records) = fun other => tally other (keepKind kind records) := by
  funext other
  rw [only, tally_keepKind]

theorem only_less (kind : TypeId) (left : TypeId → Nat) (records : List Record) :
    only kind (fun other => left other - tally other records) =
      fun other => only kind left other - tally other (keepKind kind records) := by
  funext other
  rw [only, only, tally_keepKind]
  split
  · rfl
  · rfl

/-- Whether a record finds a claim depends on the records of its own kind only. -/
theorem allotted_keepKind (kind : TypeId) (left : TypeId → Nat) (records : List Record) :
    allotted (only kind left) (keepKind kind records) = keepKind kind (allotted left records) := by
  induction records generalizing left with
  | nil => rfl
  | cons r rest ih =>
    have later := ih fun other => left other - tally other [r]
    have empty : keepKind kind [] = [] := rfl
    rw [only_less, keepKind_cons, empty] at later
    rw [keepKind_cons, allotted]
    by_cases same : r.kind = kind
    · have claimed : only kind left r.kind = left r.kind := if_pos same
      rw [if_pos same] at later
      rw [if_pos same, allotted, claimed, later]
      split
      · rfl
      · rw [keepKind_cons, if_pos same]
    · have unused : (fun other => only kind left other - tally other []) = only kind left := rfl
      rw [if_neg same, unused] at later
      rw [if_neg same, later]
      split
      · rfl
      · rw [keepKind_cons, if_neg same]

def Level.keepKind? (kind : TypeId) (l : Level) : Option Level :=
  of? l.index l.source (keepKind kind l.records)

theorem Level.of?_keepKind (kind : TypeId) (index : Nat) (source : Element) (records : List Record) :
    (of? index source records).toList.filterMap (keepKind? kind) =
      (of? index source (keepKind kind records)).toList := by
  have single (l : Level) : [l].filterMap (keepKind? kind) = (keepKind? kind l).toList := by
    rw [List.filterMap_cons]
    cases keepKind? kind l <;> rfl
  by_cases empty : records.isEmpty = true
  · rw [List.isEmpty_iff.mp empty]
    rfl
  · have whole : of? index source records = some ⟨index, source, records⟩ := if_neg empty
    rw [whole]
    exact single _

namespace Catalog

variable {c : Catalog} {kind id : TypeId} {types : List TypeId}

def onlyKind (c : Catalog) (kind : TypeId) : Catalog :=
  { c with records := c.records.filter (·.2.kind = kind) }

theorem recordsOf_onlyKind (e : Element) :
    (c.onlyKind kind).recordsOf e = keepKind kind (c.recordsOf e) := by
  have present : (c.onlyKind kind).isPresent = c.isPresent := rfl
  have attached (own : Element × Record → Option Record)
      (same : ∀ entry r, own entry = some r → r = entry.2) (all : List (Element × Record)) :
      (all.filter (·.2.kind = kind)).filterMap own = keepKind kind (all.filterMap own) := by
    induction all with
    | nil => rfl
    | cons entry rest ih =>
      cases here : own entry with
      | none => by_cases kept : entry.2.kind = kind <;> simp [here, kept, ih]
      | some r =>
        cases same entry r here
        by_cases kept : entry.2.kind = kind <;> simp [here, kept, keepKind_cons, ih]
  rw [recordsOf, recordsOf, present, onlyKind, attached, keepKind, keepKind, List.filter_comm]
  intro entry r own
  have own : (if entry.1 = e then some entry.2 else none) = some r := own
  split at own
  · exact (Option.some.inj own).symm
  · cases own

theorem any_keepKind (records : List Record) :
    (keepKind kind records).any (·.kind = kind) = records.any (·.kind = kind) := by
  rw [keepKind, List.any_filter]
  simp only [Bool.and_self]

theorem gained_keepKind (visible records : List Record) :
    (c.onlyKind kind).gained (keepKind kind visible) (keepKind kind records) =
      keepKind kind (c.gained visible records) := by
  have inherited : (c.onlyKind kind).isInherited = c.isInherited := rfl
  induction records generalizing visible with
  | nil => rfl
  | cons r rest ih =>
    have later := ih (visible ++ [r])
    have empty : keepKind kind [] = [] := rfl
    rw [keepKind_append, keepKind_cons, empty] at later
    rw [keepKind_cons]
    by_cases same : r.kind = kind
    · rw [if_pos same] at later
      rw [if_pos same, gained, gained, inherited, same, any_keepKind]
      split
      · rw [later, keepKind_cons, if_pos same]
      · exact ih visible
    · rw [if_neg same, List.append_nil] at later
      rw [if_neg same, gained]
      split
      · rw [later, keepKind_cons, if_neg same]
      · exact ih visible

theorem Chain.onlyKind (chain : c.Chain id types) (kind : TypeId) :
    (c.onlyKind kind).Chain id types := by
  induction chain with
  | last known => exact .last ((superclass_of_types rfl _).trans known)
  | next known _ ih => exact .next ((superclass_of_types rfl _).trans known) ih

theorem Chain.of_onlyKind (chain : (c.onlyKind kind).Chain id types) : c.Chain id types := by
  induction chain with
  | last known => exact .last ((superclass_of_types rfl _).trans known)
  | next known _ ih => exact .next ((superclass_of_types rfl _).trans known) ih

section

variable (acyclic : c.AcyclicFrom TypeDecl.superLinks id)
include acyclic

theorem visibleRecords_onlyKind (kind : TypeId) {visible : List Record}
    (known : c.visibleRecords id = .ok visible) :
    (c.onlyKind kind).visibleRecords id = .ok (keepKind kind visible) := by
  obtain ⟨types, chain⟩ := chain_of_visibleRecords known acyclic
  have own := visibleRecords_of_chain chain acyclic
  have part := visibleRecords_of_chain (chain.onlyKind kind) acyclic
  have above : (types.flatMap fun t => (c.onlyKind kind).recordsOf (.type t)) =
      keepKind kind (types.flatMap fun t => c.recordsOf (.type t)) := by
    rw [keepKind, List.filter_flatMap]
    exact List.flatMap_congr fun t _ => recordsOf_onlyKind (.type t)
  rw [known] at own
  rw [part, above, recordsOf_onlyKind, gained_keepKind, ← keepKind_append, ← Except.ok.inj own]

theorem visibleRecords_onlyKind_of_error (kind : TypeId) {e : QueryError}
    (unknown : c.visibleRecords id = .error e) :
    ∃ e, (c.onlyKind kind).visibleRecords id = .error e := by
  cases known : (c.onlyKind kind).visibleRecords id with
  | error e => exact ⟨e, rfl⟩
  | ok visible =>
    obtain ⟨types, chain⟩ := chain_of_visibleRecords known acyclic
    rw [visibleRecords_of_chain chain.of_onlyKind acyclic] at unknown
    cases unknown

end

end Catalog

def Scanner.onlyKind (s : Scanner) (kind : TypeId) : Scanner :=
  { s with catalog := s.catalog.onlyKind kind }

theorem Scanner.kept_onlyKind (s : Scanner) (kind id : TypeId) :
    (s.onlyKind kind).kept id = keepKind kind (s.kept id) := by
  have keeps : (s.onlyKind kind).keeps = s.keeps := rfl
  have records : (s.onlyKind kind).catalog.recordsOf (.type id) =
      keepKind kind (s.catalog.recordsOf (.type id)) := Catalog.recordsOf_onlyKind (.type id)
  rw [kept, kept, keeps, records, keepKind, keepKind, List.filter_comm]

namespace Course

variable {α β : Type} {kind : TypeId} {c d : Course α}

def Thins (kind : TypeId) (c d : Course α) : Prop := ∀ i,
  (d.run i).answer = (c.run i).answer ∧ (d.run i).index = (c.run i).index ∧
    Event.levels (d.run i).events = (Event.levels (c.run i).events).filterMap (Level.keepKind? kind)

theorem Thins.ask (answer : Except QueryError α) : Thins kind (ask answer) (ask answer) :=
  fun _ => ⟨rfl, rfl, rfl⟩

theorem Thins.bind {next after : α → Course β} (first : Thins kind c d)
    (rest : ∀ a, Thins kind (next a) (after a)) : Thins kind (c >>= next) (d >>= after) := by
  intro i
  obtain ⟨answers, index, levels⟩ := first i
  cases ended : (c.run i).answer with
  | error e =>
    rw [run_bind_of_error (answers.trans ended), run_bind_of_error ended]
    exact ⟨rfl, index, levels⟩
  | ok a =>
    obtain ⟨later, last, further⟩ := rest a (c.run i).index
    rw [run_bind_of_ok (answers.trans ended), run_bind_of_ok ended, index]
    refine ⟨later, last, ?_⟩
    show Event.levels (_ ++ _) = (Event.levels (_ ++ _)).filterMap _
    rw [Event.levels_append, Event.levels_append, List.filterMap_append, levels, further]

theorem Thins.contain {c d : Course Unit} (thins : Thins kind c d) (on : Element) :
    Thins kind (c.contain on) (d.contain on) := by
  intro i
  obtain ⟨answers, index, levels⟩ := thins i
  refine ⟨by rw [contain_answer, contain_answer], ?_, by rw [levels_contain, levels_contain, levels]⟩
  cases ended : (c.run i).answer with
  | ok u => rw [run_contain_of_ok (answers.trans ended), run_contain_of_ok ended, index]
  | error e => rw [run_contain_of_error (answers.trans ended), run_contain_of_error ended, index]

theorem Thins.conforms : Conforms (Thins kind) where
  nothing _ := ⟨rfl, rfl, rfl⟩
  unasked _ _ := ⟨rfl, rfl, rfl⟩
  report _ _ _ := ⟨rfl, rfl, rfl⟩
  append first rest := first.bind fun _ => rest

theorem Thins.deliver (index : Nat) (on : Element) {slots part : List Slot}
    (same : part.filterMap id = keepKind kind (slots.filterMap id)) :
    Thins kind (deliver index on slots) (deliver index on part) := by
  intro i
  refine ⟨rfl, rfl, ?_⟩
  show Event.levels [.records index on part] =
    (Event.levels [.records index on slots]).filterMap (Level.keepKind? kind)
  rw [Event.levels_call, Event.levels_call, Level.of?_keepKind, same]

end Course

namespace Terrain

open Course

def onlyKind (t : Terrain) (kind : TypeId) : Terrain := { t with scanner := t.scanner.onlyKind kind }

variable {t : Terrain} {kind type source : TypeId}

theorem kept_onlyKind (type : TypeId) : (t.onlyKind kind).kept type = keepKind kind (t.kept type) := by
  rw [kept, kept, apply_ite (keepKind kind)]
  have records : (t.onlyKind kind).scanner.kept type = keepKind kind (t.scanner.kept type) :=
    t.scanner.kept_onlyKind kind type
  rw [records]
  rfl

theorem shown_onlyKind (type : TypeId) :
    (∃ e, t.shown (.type type) = .error e ∧ (t.onlyKind kind).shown (.type type) = .error e) ∨
      ∃ slots part, t.shown (.type type) = .ok slots ∧
        (t.onlyKind kind).shown (.type type) = .ok part ∧
        part.filterMap id = keepKind kind (slots.filterMap id) := by
  have whole : t.shown (.type type) =
      if t.rejects type then .ok [] else t.scanner.freshSlots (.type type) := rfl
  have part : (t.onlyKind kind).shown (.type type) =
      if t.rejects type then .ok [] else (t.scanner.onlyKind kind).freshSlots (.type type) := rfl
  rw [whole, part]
  split
  · exact .inr ⟨[], [], rfl, rfl, rfl⟩
  cases loaded : t.scanner.catalog.load type with
  | error e =>
    have absent : (t.scanner.onlyKind kind).catalog.load type = .error e := loaded
    refine .inl ⟨e, ?_, ?_⟩
    · simp only [Scanner.freshSlots, Catalog.declaredRecords, Catalog.loadElement, loaded,
        Bind.bind, Except.bind]
    · simp only [Scanner.freshSlots, Catalog.declaredRecords, Catalog.loadElement, absent,
        Bind.bind, Except.bind]
  | ok decl =>
    have present := (Catalog.present_of_load loaded).2
    have presentPart : (t.scanner.onlyKind kind).catalog.isPresent type = true := present
    refine .inr ⟨_, _, Scanner.freshSlots_of_present present,
      Scanner.freshSlots_of_present presentPart, ?_⟩
    rw [Scanner.filterMap_slotsOf, Scanner.filterMap_slotsOf, Scanner.kept_onlyKind]

theorem element_thins (type : TypeId) :
    Thins kind (t.element (.type type)) ((t.onlyKind kind).element (.type type)) := by
  unfold element
  have entering : Thins kind (enter 0) (enter 0) := fun _ => ⟨rfl, rfl, rfl⟩
  refine .contain (entering.bind fun _ => ?_) _
  rw [declared_eq_ask, declared_eq_ask]
  rcases t.shown_onlyKind type with ⟨e, whole, part⟩ | ⟨slots, part, whole, given, same⟩
  · rw [whole, part]
    exact .ask _
  · rw [whole, given]
    exact .deliver 0 _ same

theorem typeFrom_thins (reach : Scan.Reach) (fuel : Nat) (type : TypeId) :
    Thins kind (t.typeFrom reach fuel type) ((t.onlyKind kind).typeFrom reach fuel type) := by
  induction fuel generalizing type with
  | zero => exact Thins.conforms.nothing
  | succ fuel ih =>
    have each (next : TypeId) (_ : t.scanner.catalog.Crosses type next) := ih next
    have conforms : Conforms (Thins kind) := Thins.conforms
    have onward := conforms.onward (t := t) (u := t.onlyKind kind) rfl each reach
    have entering : Thins kind (do enter (← index)) (do enter (← index)) := fun _ => ⟨rfl, rfl, rfl⟩
    have advancing : Thins kind advance advance := fun _ => ⟨rfl, rfl, rfl⟩
    have here : Thins kind index index := fun _ => ⟨rfl, rfl, rfl⟩
    unfold typeFrom
    rw [declared_eq_ask, declared_eq_ask]
    refine .contain (entering.bind fun _ => (Thins.ask _).bind fun plain => ?_) _
    cases plain with
    | true => exact Thins.conforms.nothing
    | false =>
      rcases t.shown_onlyKind type with ⟨e, whole, part⟩ | ⟨slots, part, whole, given, same⟩
      · rw [whole, part]
        exact .ask _
      · rw [whole, given, ask_ok, ask_ok]
        exact here.bind fun i => (Thins.deliver i _ same).bind fun _ => advancing.bind fun _ => onward

theorem ladder_onlyKind (index : Nat) (left : TypeId → Nat) (types : List TypeId) :
    (t.onlyKind kind).ladder index (only kind left) types =
      (t.ladder index left types).filterMap (Level.keepKind? kind) := by
  induction types generalizing index left with
  | nil => rfl
  | cons id rest ih =>
    rw [ladder, ladder, List.filterMap_append, Level.of?_keepKind, kept_onlyKind, ← ih, only_less,
      allotted_keepKind]

theorem inheritedType_keepKind {fuel : Nat}
    (acyclic : t.scanner.catalog.AcyclicFrom TypeDecl.superLinks source)
    (enough : t.scanner.catalog.typeCount ≤ fuel) :
    Event.levels (((t.onlyKind kind).inheritedType fuel source).run 0).events =
      (Event.levels ((t.inheritedType fuel source).run 0).events).filterMap (Level.keepKind? kind) := by
  let part := t.onlyKind kind
  have same : part.scanner.catalog.isWithoutHierarchy .inherited (.type source) =
      t.scanner.catalog.isWithoutHierarchy .inherited (.type source) := rfl
  rcases asked : t.scanner.catalog.isWithoutHierarchy .inherited (.type source) with e | _ | _
  · rw [inheritedType_levels_of_unasked asked, inheritedType_levels_of_unasked (same.trans asked)]
    rfl
  · cases known : t.scanner.catalog.visibleRecords source with
    | error e =>
      obtain ⟨other, unknown⟩ := Catalog.visibleRecords_onlyKind_of_error acyclic kind known
      rw [inheritedType_levels_of_error asked known,
        inheritedType_levels_of_error (same.trans asked) unknown]
      rfl
    | ok visible =>
      -- where all superclasses are known the levels depend on how many of each kind are claimed
      obtain ⟨types, chain⟩ := Catalog.chain_of_visibleRecords known acyclic
      have shorter : types.length < fuel := (chain.length_lt_typeCount acyclic).trans_le enough
      have visiblePart := Catalog.visibleRecords_onlyKind acyclic kind known
      have chainPart := chain.onlyKind kind
      have rungs : part.scanner.isRung = t.scanner.isRung := rfl
      rw [inheritedType_levels asked known chain shorter,
        inheritedType_levels (t := part) (same.trans asked) visiblePart chainPart shorter, rungs,
        ← only_tally]
      exact ladder_onlyKind 0 _ _
  · rw [inheritedType_of_alone asked, inheritedType_of_alone (same.trans asked)]
    exact (element_thins source 0).2.2

end Terrain

namespace Scan

/-- A scan of a type shows the records of a kind as if there were no records of any other. -/
theorem kinds_apart (s : Scanner) (rejects : TypeId → Bool) (kind : TypeId)
    (history other : List Operation) (strategy : Strategy) {source : TypeId}
    (acyclic : s.catalog.AcyclicFrom TypeDecl.superLinks source) :
    let whole : Scan (List Level) (List Level) := ⟨s, .levels, rejects⟩
    let part : Scan (List Level) (List Level) := ⟨s.onlyKind kind, .levels, rejects⟩
    ∃ levels,
      (whole.run strategy (.type source) (s.memoAfter history)).answer = some levels ∧
      (part.run strategy (.type source) ((s.onlyKind kind).memoAfter other)).answer =
        some (levels.filterMap (Level.keepKind? kind)) := by
  intro whole part
  let t := whole.terrain
  have same : Event.levels (part.terrain.events part.depth strategy (.type source)) =
      (Event.levels (t.events whole.depth strategy (.type source))).filterMap
        (Level.keepKind? kind) := by
    cases strategy with
    | direct => exact (t.element_thins source 0).2.2
    | inherited => exact t.inheritedType_keepKind acyclic whole.typeCount_le_depth
    | superclass | hierarchy | enclosing => exact (t.typeFrom_thins _ whole.depth source 0).2.2
  refine ⟨_, answer_run_levels s rejects history strategy _, ?_⟩
  rw [← same]
  exact answer_run_levels (s.onlyKind kind) rejects other strategy _

def mixed : Scanner where
  catalog := .ofDecls [Catalog.rootDecl,
    ⟨⟨1⟩, "mark.Seen", .recordKind, [], none, [], none, true, true⟩,
    ⟨⟨2⟩, "mark.Checked", .recordKind, [], none, [], none, true, true⟩,
    ⟨⟨3⟩, "shape.Base", .classType, [], some ⟨⟨0⟩, []⟩, [], none, false, true⟩,
    ⟨⟨4⟩, "shape.Low", .classType, [], some ⟨⟨3⟩, []⟩, [], none, false, true⟩]
    [⟨⟨0⟩, "on", ⟨2⟩, .everyone, [], .type, none, none⟩]
    [(.type ⟨3⟩, .ofKind ⟨1⟩), (.type ⟨3⟩, (Record.ofKind ⟨2⟩).set "on" (.type ⟨3⟩)),
      (.type ⟨4⟩, .ofKind ⟨2⟩), (.type ⟨4⟩, .ofKind ⟨1⟩)]
  settings := {}

theorem mixed_kinds_apart :
    mixed.catalog.AcyclicFrom TypeDecl.superLinks ⟨4⟩ ∧
      let whole : Scan (List Level) (List Level) := ⟨mixed, .levels, fun _ => false⟩
      let part : Scan (List Level) (List Level) := ⟨mixed.onlyKind ⟨1⟩, .levels, fun _ => false⟩
      ∃ levels,
        (whole.run .inherited (.type ⟨4⟩) (mixed.memoAfter [])).answer = some levels ∧
        (part.run .inherited (.type ⟨4⟩) ((mixed.onlyKind ⟨1⟩).memoAfter [.clear])).answer =
          some (levels.filterMap (Level.keepKind? ⟨1⟩)) := by
  have falls : mixed.catalog.Falls TypeDecl.superLinks TypeId.index := by decide
  have acyclic := falls.acyclicFrom ⟨4⟩
  exact ⟨acyclic, kinds_apart mixed (fun _ => false) ⟨1⟩ [] [.clear] .inherited acyclic⟩

example :
    let whole : Scan (List Level) (List Level) := ⟨mixed, .levels, fun _ => false⟩
    ((whole.run .inherited (.type ⟨4⟩) .empty).answer.getD []).map
        (fun l => (l.index, l.source, l.records.map (·.kind))) =
      [(0, .type ⟨4⟩, [⟨1⟩]), (1, .type ⟨3⟩, [⟨2⟩])] := by decide +kernel

end Scan

end Lineage
