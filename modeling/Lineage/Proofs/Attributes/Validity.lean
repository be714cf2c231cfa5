import Lineage.Proofs.Attributes.Order

namespace Lineage

variable {c : Catalog} {r : Record} {v w : Value} {id : TypeId} {e : QueryError} {a : Accessor}
  {kindName : String}

/-- Values of such a type may name types that are found missing only when they are read. -/
def ValueType.NamesTypes (t : ValueType) : Prop := t = .type ∨ t = .array .type ∨ ∃ id, t = .enum id

theorem ValueType.isDeferred_iff {t : ValueType} : t.isDeferred = true ↔ t.NamesTypes := by
  constructor
  · intro deferred
    unfold isDeferred at deferred
    split at deferred
    · exact .inl rfl
    · exact .inr (.inr ⟨_, rfl⟩)
    · exact .inr (.inl rfl)
    · cases deferred
  · rintro (rfl | rfl | ⟨id, rfl⟩) <;> rfl

namespace Value

inductive Names : Value → TypeId → Prop
  | type (id : TypeId) : Names (.type id) id
  | enum (id : TypeId) (constant : String) : Names (.enum id constant) id
  | item {items : List Value} {v : Value} {id : TypeId} :
    v ∈ items → Names v id → Names (.array items) id

theorem typeRefsOf_eq (vs : List Value) : typeRefsOf vs = vs.flatMap typeRefs := by
  induction vs with
  | nil => rfl
  | cons v vs ih => rw [typeRefsOf, ih, List.flatMap_cons]

theorem typeRefs_array (items : List Value) : typeRefs (.array items) = items.flatMap typeRefs :=
  typeRefsOf_eq items

/-- Induction on what is in arrays. -/
theorem items_induct {M : Value → Prop} (other : ∀ v, (∀ items, v ≠ .array items) → M v)
    (nested : ∀ items, (∀ v ∈ items, M v) → M (.array items)) (v : Value) : M v :=
  match v with
  | .array items => nested items fun w _ => items_induct other nested w
  | .bool _ | .int _ | .float _ | .string _ | .type _ | .enum _ _ | .record _ =>
    other _ fun _ same => by cases same
termination_by v
decreasing_by
  have := List.sizeOf_lt_of_mem ‹_›
  simp only [array.sizeOf_spec]
  omega

theorem mem_typeRefs (v : Value) : id ∈ v.typeRefs ↔ v.Names id := by
  induction v using items_induct with
  | nested items ih =>
    rw [typeRefs_array, List.mem_flatMap]
    constructor
    · rintro ⟨v, member, listed⟩
      exact .item member ((ih v member).mp listed)
    · intro names
      cases names with
      | item member names => exact ⟨_, member, (ih _ member).mpr names⟩
  | other v simple =>
    cases v with
    | type | enum =>
      constructor
      · intro listed
        cases List.mem_singleton.mp listed
        constructor
      · intro names
        cases names
        exact List.mem_singleton_self _
    | array items => exact absurd rfl (simple items)
    | bool | int | float | string | record =>
      exact ⟨fun listed => absurd listed List.not_mem_nil, fun names => by cases names⟩

end Value

namespace Catalog

def Loads (c : Catalog) (v : Value) : Prop := ∀ id, v.Names id → c.isPresent id = true

/-- From left to right, the first type named by a value that cannot be loaded fails with an error. -/
inductive Blocked (c : Catalog) : Value → QueryError → Prop
  | type {id : TypeId} {e : QueryError} : c.load id = .error e → Blocked c (.type id) e
  | enum {id : TypeId} {e : QueryError} (constant : String) :
    c.load id = .error e → Blocked c (.enum id constant) e
  | item {before after : List Value} {v : Value} {e : QueryError} :
    (∀ w ∈ before, c.Loads w) → Blocked c v e → Blocked c (.array (before ++ v :: after)) e

theorem load_of_absent (absent : c.isPresent id = false) : ∃ e, c.load id = .error e := by
  cases loaded : c.load id with
  | error e => exact ⟨e, rfl⟩
  | ok decl =>
    rw [(present_of_load loaded).2] at absent
    cases absent

theorem loads_or_blocked (v : Value) : c.Loads v ∨ ∃ e, c.Blocked v e := by
  induction v using Value.items_induct with
  | nested items ih =>
    -- the first item that does not load blocks the array
    suffices first : (∀ v ∈ items, c.Loads v) ∨ ∃ before v after e,
        items = before ++ v :: after ∧ (∀ w ∈ before, c.Loads w) ∧ c.Blocked v e by
      rcases first with all | ⟨before, v, after, e, rfl, earlier, blocked⟩
      · left
        intro id names
        cases names with
        | item member names => exact all _ member id names
      · exact .inr ⟨e, .item earlier blocked⟩
    induction items with
    | nil => exact .inl fun v member => absurd member List.not_mem_nil
    | cons v rest later =>
      rcases ih v List.mem_cons_self with loads | ⟨e, blocked⟩
      · rcases later fun w member => ih w (List.mem_cons_of_mem _ member) with
          all | ⟨before, w, after, e, rfl, earlier, blocked⟩
        · exact .inl (List.forall_mem_cons.mpr ⟨loads, all⟩)
        · exact .inr ⟨v :: before, w, after, e, rfl, List.forall_mem_cons.mpr ⟨loads, earlier⟩,
            blocked⟩
      · exact .inr ⟨[], v, rest, e, rfl, fun w member => absurd member List.not_mem_nil, blocked⟩
  | other v simple =>
    cases v with
    | type id | enum id constant =>
      cases present : c.isPresent id with
      | true =>
        left
        intro named names
        cases names
        exact present
      | false =>
        obtain ⟨e, unloaded⟩ := load_of_absent present
        exact .inr ⟨e, by constructor; exact unloaded⟩
    | array items => exact absurd rfl (simple items)
    | bool | int | float | string | record => exact .inl fun id names => by cases names

def loadAll (c : Catalog) (ids : List TypeId) : Except QueryError Unit :=
  ids.forM fun id => do
    let _ ← c.load id

theorem loadAll_cons (id : TypeId) (ids : List TypeId) :
    c.loadAll (id :: ids) = (c.load id >>= fun _ => c.loadAll ids) := by
  unfold loadAll
  rw [List.forM_eq_forM, List.forM_cons]
  cases c.load id <;> rfl

theorem loadAll_append {ids : List TypeId} (present : ∀ id ∈ ids, c.isPresent id = true)
    (more : List TypeId) : c.loadAll (ids ++ more) = c.loadAll more := by
  induction ids with
  | nil => rfl
  | cons id rest ih =>
    obtain ⟨decl, _, loaded⟩ := load_of_present (present id List.mem_cons_self)
    rw [List.cons_append, loadAll_cons, loaded]
    exact ih fun next listed => present next (List.mem_cons_of_mem _ listed)

theorem loadAll_of_blocked (blocked : c.Blocked v e) (more : List TypeId) :
    c.loadAll (v.typeRefs ++ more) = .error e := by
  induction blocked generalizing more with
  | type unloaded | enum constant unloaded =>
    rw [Value.typeRefs, List.cons_append, loadAll_cons, unloaded]
    rfl
  | @item before after v e earlier _ ih =>
    have present : ∀ id ∈ before.flatMap Value.typeRefs, c.isPresent id = true := by
      intro id listed
      obtain ⟨w, member, listed⟩ := List.mem_flatMap.mp listed
      exact earlier w member id ((Value.mem_typeRefs w).mp listed)
    rw [Value.typeRefs_array, List.flatMap_append, List.flatMap_cons, List.append_assoc,
      List.append_assoc, loadAll_append present, ih]

end Catalog

inductive Record.Gives (r : Record) (a : Accessor) : Value → Prop
  | explicit {v : Value} : r.value? a.name = some v → Gives r a v
  | default {v : Value} : r.value? a.name = none → a.default = some v → Gives r a v

namespace Catalog

def Readable (c : Catalog) (r : Record) (a : Accessor) : Prop := ∃ v, r.Gives a v ∧ c.Loads v

inductive Faulty (c : Catalog) (r : Record) (kindName : String) (a : Accessor) : QueryError → Prop
  | missing : r.value? a.name = none → a.default = none →
    Faulty c r kindName a (.missingAttribute a.name kindName)
  | blocked {v : Value} {e : QueryError} : r.Gives a v → c.Blocked v e → Faulty c r kindName a e

def Valid (c : Catalog) (r : Record) : Prop :=
  ∀ d ∈ c.membersOf r.kind, d.isAttribute = true → d.returns.NamesTypes → c.Readable r (.ofMember d)

section

variable {d : MemberDecl} (known : c.memberDecl d.id = .ok d)
include known

theorem readAttribute_of_given (gives : r.Gives (.ofMember d) v) :
    c.readAttribute r d.id = (c.loadAll v.typeRefs >>= fun _ => .ok v) := by
  have value : (r.value? d.name).or d.default = some v := by
    cases gives with
    | explicit found => rw [show r.value? d.name = some v from found, Option.some_or]
    | default unset found =>
      rw [show r.value? d.name = none from unset, Option.none_or]
      exact found
  simp only [readAttribute, known, Bind.bind, Except.bind, value]
  rfl

theorem readAttribute_of_readable (readable : c.Readable r (.ofMember d)) :
    ∃ v, c.readAttribute r d.id = .ok v := by
  obtain ⟨v, gives, loads⟩ := readable
  have present : ∀ id ∈ v.typeRefs, c.isPresent id = true :=
    fun id listed => loads id ((Value.mem_typeRefs v).mp listed)
  have all := loadAll_append present []
  rw [List.append_nil] at all
  exact ⟨v, by rw [readAttribute_of_given known gives, all]; rfl⟩

theorem readAttribute_of_faulty {kind : TypeDecl} (found : c.type? r.kind = some kind)
    (faulty : c.Faulty r kind.name (.ofMember d) e) : c.readAttribute r d.id = .error e := by
  cases faulty with
  | missing unset undefined =>
    have value : (r.value? d.name).or d.default = none :=
      Option.or_eq_none_iff.mpr ⟨unset, undefined⟩
    simp only [readAttribute, known, Bind.bind, Except.bind, value, found]
    rfl
  | @blocked v _ gives blocked =>
    have all := loadAll_of_blocked blocked []
    rw [List.append_nil] at all
    rw [readAttribute_of_given known gives, all]
    rfl

end

theorem readable_or_faulty (c : Catalog) (r : Record) (kindName : String) (a : Accessor) :
    c.Readable r a ∨ ∃ e, c.Faulty r kindName a e := by
  have given (v : Value) (gives : r.Gives a v) : c.Readable r a ∨ ∃ e, c.Faulty r kindName a e := by
    rcases c.loads_or_blocked v with loads | ⟨e, blocked⟩
    · exact .inl ⟨v, gives, loads⟩
    · exact .inr ⟨e, .blocked gives blocked⟩
  cases explicit : r.value? a.name with
  | some v => exact given v (.explicit explicit)
  | none =>
    cases default : a.default with
    | some v => exact given v (.default explicit default)
    | none => exact .inr ⟨_, .missing explicit default⟩

/-- What is to be said of some attributes of a record: nothing if those that may name types can be
    read, else the first that cannot and the reason. -/
inductive Verdict (c : Catalog) (r : Record) (kindName : String) :
    List Accessor → Option Unreadable → Prop
  | sound {as : List Accessor} :
    (∀ a ∈ as, a.type.NamesTypes → c.Readable r a) → Verdict c r kindName as none
  | fault {before after : List Accessor} {a : Accessor} {cause : QueryError} :
    (∀ b ∈ before, b.type.NamesTypes → c.Readable r b) → a.type.NamesTypes →
    c.Faulty r kindName a cause →
    Verdict c r kindName (before ++ a :: after) (some ⟨a.name, kindName, cause⟩)

theorem Verdict.cons {as : List Accessor} {fault : Option Unreadable}
    (rest : c.Verdict r kindName as fault) (readable : a.type.NamesTypes → c.Readable r a) :
    c.Verdict r kindName (a :: as) fault := by
  cases rest with
  | sound all => exact .sound (List.forall_mem_cons.mpr ⟨readable, all⟩)
  | @fault before after b cause earlier names faulty =>
    have allEarlier := List.forall_mem_cons.mpr ⟨readable, earlier⟩
    exact @Verdict.fault c r kindName (a :: before) after b cause allEarlier names faulty

theorem Verdict.eq_none_iff {kind : TypeDecl} (found : c.type? r.kind = some kind)
    {as : List Accessor} {fault : Option Unreadable} (verdict : c.Verdict r kind.name as fault)
    (listed : ∀ a ∈ as, ∃ d, c.memberDecl d.id = .ok d ∧ a = .ofMember d) :
    fault = none ↔ ∀ a ∈ as, a.type.NamesTypes → c.Readable r a := by
  cases verdict with
  | sound all => exact ⟨fun _ => all, fun _ => rfl⟩
  | @fault before after a cause earlier names faulty =>
    refine ⟨fun none => (by cases none), fun all => ?_⟩
    have member : a ∈ before ++ a :: after := List.mem_append_right _ List.mem_cons_self
    obtain ⟨d, known, rfl⟩ := listed a member
    obtain ⟨v, read⟩ := readAttribute_of_readable known (all _ member names)
    rw [readAttribute_of_faulty known found faulty] at read
    cases read

end Catalog

namespace AttributeTable

theorem all_isReadable_iff (as : List Accessor) :
    as.all (isReadable c r) = true ↔ firstUnreadable c r as = none := by
  induction as with
  | nil => exact ⟨fun _ => rfl, fun _ => rfl⟩
  | cons a rest ih =>
    rw [List.all_cons, firstUnreadable, isReadable]
    cases c.readAttribute r a.member with
    | ok v => exact ih
    | error e => exact ⟨fun readable => (by cases readable), fun fault => (by cases fault)⟩

theorem firstUnreadable_verdict {kind : TypeDecl} (found : c.type? r.kind = some kind)
    {as : List Accessor}
    (listed : ∀ a ∈ as, ∃ d, c.memberDecl d.id = .ok d ∧ a = .ofMember d) :
    c.Verdict r kind.name as (firstUnreadable c r (as.filter (·.type.isDeferred))) := by
  induction as with
  | nil => exact .sound fun a member => absurd member List.not_mem_nil
  | cons a rest ih =>
    obtain ⟨⟨d, known, rfl⟩, later⟩ := List.forall_mem_cons.mp listed
    cases deferred : (Accessor.ofMember d).type.isDeferred with
    | false =>
      rw [List.filter_cons_of_neg (by simp [deferred])]
      refine (ih later).cons fun names => ?_
      rw [ValueType.isDeferred_iff.mpr names] at deferred
      cases deferred
    | true =>
      rw [List.filter_cons_of_pos (by simp [deferred]), firstUnreadable]
      rcases c.readable_or_faulty r kind.name (.ofMember d) with readable | ⟨e, faulty⟩
      · obtain ⟨v, read⟩ := Catalog.readAttribute_of_readable known readable
        rw [show c.readAttribute r (Accessor.ofMember d).member = .ok v from read]
        exact (ih later).cons fun _ => readable
      · have unread := Catalog.readAttribute_of_faulty known found faulty
        rw [show c.readAttribute r (Accessor.ofMember d).member = .error e from unread, found]
        exact @Catalog.Verdict.fault c r kind.name [] rest _ e
          (fun b member => absurd member List.not_mem_nil) (ValueType.isDeferred_iff.mp deferred)
          faulty

/-- A record is valid if every attribute that may name types has a value, its own or the default,
    and all types named by that are present. Otherwise the first attribute in the order of the table
    is told where this fails. -/
theorem validate_verdict (built : c.Built) (present : c.isPresent r.kind = true) :
    ∃ t kind valid fault, compute c r.kind true = .ok t ∧ c.type? r.kind = some kind ∧
      t.isValid c r = .ok valid ∧ t.validate c r = .ok fault ∧
      (valid = true ↔ fault = none) ∧ (fault = none ↔ c.Valid r) ∧
      c.Verdict r kind.name t.accessors fault := by
  have numbered := built.aligned.numbered
  obtain ⟨kind, found, _⟩ := Catalog.load_of_present present
  obtain ⟨t, computed, lists⟩ := compute_lists built.aligned present true
  have expected := expect_of_kind (kind_of_compute computed)
  have hazardous := (compute_aligned computed).hazardous
  have listed : ∀ a ∈ t.accessors, ∃ d, c.memberDecl d.id = .ok d ∧ a = .ofMember d := by
    intro a member
    obtain ⟨d, selected, same⟩ := List.mem_map.mp (lists.each.mem_iff.mp member)
    exact ⟨d, (numbered.memberDecl (List.mem_filter.mp selected).1).1, same.symm⟩
  have verdict := firstUnreadable_verdict found listed
  rw [← hazardous] at verdict
  have every : (∀ a ∈ t.accessors, a.type.NamesTypes → c.Readable r a) ↔ c.Valid r := by
    constructor
    · intro all d declared isAttribute names
      have selected := List.mem_filter.mpr ⟨declared, isAttribute⟩
      exact all _ (lists.each.mem_iff.mpr (List.mem_map_of_mem selected)) names
    · intro valid a member names
      obtain ⟨d, selected, rfl⟩ := List.mem_map.mp (lists.each.mem_iff.mp member)
      obtain ⟨declared, isAttribute⟩ := List.mem_filter.mp selected
      exact valid d declared isAttribute names
  exact ⟨t, kind, t.hazardous.all (isReadable c r), firstUnreadable c r t.hazardous, computed, found,
    by rw [isValid, expected]; rfl, by rw [validate, expected]; rfl, all_isReadable_iff _,
    (verdict.eq_none_iff found listed).trans every, verdict⟩

def ruleCatalog : Catalog := .ofDecls
  [Catalog.rootDecl,
    ⟨⟨1⟩, "ext.Missing", .classType, [], none, [], none, false, false⟩,
    ⟨⟨2⟩, "acme.Rule", .recordKind, [], none, [], none, false, true⟩]
  [⟨⟨0⟩, "on", ⟨2⟩, .everyone, [], .array .type, none, none⟩,
    ⟨⟨1⟩, "level", ⟨2⟩, .everyone, [], .enum ⟨0⟩, some (.enum ⟨0⟩ "HIGH"), none⟩,
    ⟨⟨2⟩, "count", ⟨2⟩, .everyone, [], .int, none, none⟩]
  []

def ruleRecord : Record :=
  (Record.ofKind ⟨2⟩).set "on" (.array [.type ⟨0⟩, .array [.type ⟨1⟩, .type ⟨7⟩]])

theorem ruleCatalog_built : ruleCatalog.Built := by
  have types := (Catalog.Built.initial.declareAbsent "ext.Missing").define
    { name := "acme.Rule", flavor := .recordKind }
  have on := types.addMember ⟨2⟩ { name := "on", returns := .array .type } rfl
  have level := on.addMember ⟨2⟩
    { name := "level", returns := .enum ⟨0⟩, default := some (.enum ⟨0⟩ "HIGH") } rfl
  exact level.addMember ⟨2⟩ { name := "count", returns := .int } rfl

theorem ruleRecord_verdict :
    ∃ t kind valid fault, compute ruleCatalog ruleRecord.kind true = .ok t ∧
      ruleCatalog.type? ruleRecord.kind = some kind ∧ t.isValid ruleCatalog ruleRecord = .ok valid ∧
      t.validate ruleCatalog ruleRecord = .ok fault ∧ (valid = true ↔ fault = none) ∧
      (fault = none ↔ ruleCatalog.Valid ruleRecord) ∧
      ruleCatalog.Verdict ruleRecord kind.name t.accessors fault :=
  validate_verdict ruleCatalog_built (r := ruleRecord) rfl

example : (do
    let t ← (compute ruleCatalog ⟨2⟩ true).toOption
    let fault ← (t.validate ruleCatalog ruleRecord).toOption
    fault.map fun u => (u.name, u.kind, u.cause)) =
      some ("on", "acme.Rule", .typeNotPresent "ext.Missing") := by decide

end AttributeTable

end Lineage
