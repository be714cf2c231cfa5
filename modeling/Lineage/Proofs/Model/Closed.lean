import Lineage.Proofs.Attributes
import Lineage.Proofs.Model.Paired
import Lineage.Proofs.Pairing.Operations
import Lineage.Proofs.Scan.Claims

namespace Lineage

namespace Catalog

def Has (c : Catalog) : Element → Prop
  | .type id => id.index < c.types.length
  | .member id => id.index < c.members.length
  | .parameter id index => ∃ decl, c.member? id = some decl ∧ index < decl.params.length

end Catalog

def Operation.Within (c : Catalog) : Operation → Prop
  | .scan _ _ _ source | .knownEmpty _ source => c.Has source
  | .declared e | .declaredCopy e => c.Has e
  | .declaredOfKind e kind => c.Has e ∧ c.Has (.type kind)
  | .baseMembers id | .attributes id => c.Has (.type id)
  | .clear => True

/-- A scanner that nothing can stop short: whatever it remembers, it checks a record against the
    attributes of the record's own kind and knows of each attribute whether reading it can fail, every
    type there is has a list of members, every member on it is there, and it never uses up more claims
    than there are. -/
structure Scanner.Steady (s : Scanner) : Prop where
  checks : ∀ memo, memo.Faithful s → ∀ r table after, (s.attributes r.kind).run memo = .ok table after →
    ∃ valid, table.isValid s.catalog r = .ok valid
  flags : ∀ memo, memo.Faithful s → ∀ kind table after, (s.attributes kind).run memo = .ok table after →
    ∀ i < table.size, ∃ flag, table.canFail? i = some flag
  lists : ∀ type, ∀ decl ∈ s.catalog.membersOf type, s.catalog.member? decl.id = some decl
  tables : ∀ type : TypeId, type.index < s.catalog.types.length →
    ∃ ids, s.catalog.typeMembers[type.index]? = some ids ∧
      ∀ id ∈ ids, ∃ decl ∈ s.catalog.membersOf type, s.catalog.member? id = some decl
  claims : ∀ visible slots kind left,
    Scan.Claims.takeFirst kind ((Scan.Claims.ofRecords visible).claimAll slots).2.slots = some left →
    0 < ((Scan.Claims.ofRecords visible).claimAll slots).2.remaining

theorem Scanner.compute_of_ran {s : Scanner} {memo after : Memo} {kind : TypeId}
    {table : AttributeTable} (faithful : memo.Faithful s)
    (ran : (s.attributes kind).run memo = .ok table after) :
    AttributeTable.compute s.catalog kind true = .ok table := by
  obtain ⟨_, _, answered⟩ := s.attributes_settles kind memo faithful
  rw [ran] at answered
  cases computed : AttributeTable.compute s.catalog kind true with
  | error e =>
    rw [computed] at answered
    cases answered
  | ok found =>
    rw [computed] at answered
    cases answered
    rfl

theorem Scanner.steady_of_aligned {s : Scanner} (aligned : s.catalog.Aligned) : s.Steady where
  checks memo faithful r table after ran :=
    AttributeTable.isValid_of_kind (AttributeTable.kind_of_compute (compute_of_ran faithful ran)) _
  flags memo faithful kind table after ran i bound := by
    have flagged := (AttributeTable.compute_aligned (compute_of_ran faithful ran)).canFail? i
    rw [AttributeTable.get?, List.getElem?_eq_getElem bound, Option.map_some] at flagged
    exact ⟨_, flagged⟩
  lists type decl there := aligned.numbered.member? there
  tables type issued := by
    refine ⟨_, aligned.typeMembers_of_issued issued, fun id listed => ?_⟩
    obtain ⟨decl, there, rfl⟩ := List.mem_map.mp listed
    exact ⟨decl, there, aligned.numbered.member? there⟩
  claims visible slots kind left taken := by
    have counted := (Scan.Claims.claimAll_spec (.ofRecords visible) slots).2.2
    exact Scan.Claims.remaining_pos (counted (Scan.Claims.counted_ofRecords visible)) taken

namespace Model

variable {m : Model} {c : Catalog}

def closed (m : Model) (c : Catalog) (sound : c.Sound) : Pairing :=
  .byName c c sound sound (fun id index => c.Has (.parameter id index))
    fun e f => e = f ∧ ∃ t ∈ m.types, t.absent = true ∧ e = .typeNotPresent t.name

theorem literal_closed (sound : c.Sound) : (closed m c sound).Literal where
  type := by
    rintro a b ⟨name, first, second⟩
    exact Catalog.name_inj sound.distinct first second
  member := by
    rintro x y ⟨a, b, i, ⟨name, onA, onB⟩, first, second⟩
    obtain rfl := Catalog.name_inj sound.distinct onA onB
    exact Option.some.inj (first.symm.trans second)
  error same := same.1

theorem type_closed (sound : c.Sound) {id : TypeId} (has : c.Has (.type id)) :
    (closed m c sound).type id id := by
  have bound : id.index < c.names.length := by
    rw [Catalog.length_names]
    exact has
  exact ⟨c.names[id.index], List.getElem?_eq_getElem bound, List.getElem?_eq_getElem bound⟩

theorem member_closed (sound : c.Sound) {id : MemberId} (has : c.Has (.member id)) :
    (closed m c sound).member id id := by
  have found : c.member? id = some c.members[id.index] := List.getElem?_eq_getElem has
  have same := sound.numbered id _ found
  have stored := List.mem_of_getElem? found
  have listed : c.members[id.index] ∈ c.membersOf c.members[id.index].declaring :=
    List.mem_filter.mpr ⟨stored, decide_eq_true rfl⟩
  obtain ⟨i, there⟩ := List.mem_iff_getElem?.mp listed
  have position : c.memberAt c.members[id.index].declaring i = some id := by
    unfold Catalog.memberAt
    rw [there, Option.map_some, same]
  exact ⟨_, _, i, type_closed (m := m) sound (sound.aligned.housed _ stored), position, position⟩

theorem element_closed (sound : c.Sound) {e : Element} (has : c.Has e) :
    (closed m c sound).element e e := by
  cases e with
  | type id => exact type_closed sound has
  | member id => exact member_closed sound has
  | parameter id index =>
    have parameter := has
    obtain ⟨decl, found, _⟩ := parameter
    exact ⟨member_closed sound (List.getElem?_eq_some_iff.mp found).1, rfl, has⟩

theorem asks_closed (sound : c.Sound) {op : Operation} (within : op.Within c) :
    (closed m c sound).Asks op := by
  cases op with
  | scan visitor rejects strategy source => exact element_closed sound within
  | knownEmpty strategy source => exact element_closed sound within
  | declared e | declaredCopy e => exact element_closed sound within
  | declaredOfKind e kind => exact ⟨element_closed sound within.1, type_closed sound within.2⟩
  | baseMembers id | attributes id => exact type_closed sound within
  | clear => trivial

theorem fits_closed (loaded : Loaded m c) : (closed m c loaded.sound).Fits c c := by
  apply fits_of_loaded (Pairing.byName_joins ..) loaded loaded (.refl _)
  · intro t there absent
    exact ⟨rfl, t, there, absent, rfl⟩
  · rintro x index decl reason ⟨other, known, within⟩ found beyond
    rw [found] at known
    cases known
    omega

/-- Whatever is asked of a loaded model about what it has, the only thing that can fail is to load a
    type that the model marks absent. -/
theorem failures_of_loaded (m : Model) (c : Catalog) (settings : Settings) (ops : List Operation)
    (load : m.load = .ok c) (within : ∀ op ∈ ops, op.Within c) :
    (∀ answer ∈ Scanner.performAll ⟨c, settings⟩ ops .empty, ∀ e ∈ answer.1.failures answer.2,
      ∃ t ∈ m.types, t.absent = true ∧ e = .typeNotPresent t.name) ∧
    Scanner.Steady ⟨c, settings⟩ := by
  have loaded := loaded_of_load load
  have scanners : (closed m c loaded.sound).Scanners ⟨c, settings⟩ ⟨c, settings⟩ :=
    ⟨fits_closed loaded, rfl⟩
  constructor
  · rw [Scanner.performAll_eq_freshAnswers]
    intro answer there e failed
    obtain ⟨op, asked, rfl⟩ := List.mem_map.mp there
    have answers := (literal_closed loaded.sound).answer scanners op
      (asks_closed loaded.sound (within op asked))
    exact (answers.2 e failed).2
  · exact Scanner.steady_of_aligned loaded.sound.aligned

def gap : Model where
  types := [
    { name := "Base", absent := true },
    { name := "Mark", flavor := .recordKind },
    { name := "Sub", superclass := some ⟨"Base", []⟩, records := [⟨"Mark", []⟩],
      members := [{ name := "run", params := ["Base"], records := [⟨"Mark", []⟩] }] }]

def gapCatalog : Catalog := .ofDecls
  [Catalog.rootDecl, .reserved ⟨1⟩ "Base",
    ⟨⟨2⟩, "Mark", .recordKind, [], none, [], none, false, true⟩,
    ⟨⟨3⟩, "Sub", .classType, [], some ⟨⟨1⟩, []⟩, [], none, false, true⟩]
  [⟨⟨0⟩, "run", ⟨3⟩, .everyone, [.concrete ⟨1⟩], .void, none, none⟩]
  [(.type ⟨3⟩, ⟨⟨2⟩, []⟩), (.member ⟨0⟩, ⟨⟨2⟩, []⟩)]

def gapQuestions : List Operation :=
  [.scan Visitor.levels (fun _ => false) .superclass (.type ⟨3⟩), .knownEmpty .hierarchy (.type ⟨1⟩),
    .declared (.parameter ⟨0⟩ 0), .declaredOfKind (.member ⟨0⟩) ⟨2⟩, .baseMembers ⟨1⟩, .attributes ⟨2⟩]

theorem failures_of_gap :
    gap.load = .ok gapCatalog ∧
    (∀ answer ∈ Scanner.performAll ⟨gapCatalog, {}⟩ gapQuestions .empty,
      ∀ e ∈ answer.1.failures answer.2, ∃ t ∈ gap.types, t.absent = true ∧ e = .typeNotPresent t.name) ∧
    Scanner.Steady ⟨gapCatalog, {}⟩ := by
  have load : gap.load = .ok gapCatalog := rfl
  refine ⟨load, failures_of_loaded gap gapCatalog {} gapQuestions load ?_⟩
  intro op asked
  simp only [gapQuestions, List.mem_cons, List.not_mem_nil, or_false] at asked
  rcases asked with rfl | rfl | rfl | rfl | rfl | rfl
  · show 3 < 4
    decide
  · show 1 < 4
    decide
  · exact ⟨_, rfl, Nat.zero_lt_one⟩
  · exact ⟨Nat.zero_lt_one, show 2 < 4 by decide⟩
  · show 1 < 4
    decide
  · show 2 < 4
    decide

example : failureOf (Scanner.freshMembers ⟨gapCatalog, {}⟩ ⟨1⟩) = [.typeNotPresent "Base"] := rfl

end Model

end Lineage
