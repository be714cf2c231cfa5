import Lineage.Proofs.Attributes
import Lineage.Proofs.Catalog.Aligned
import Mathlib.Data.List.Sort

namespace Lineage

namespace Accessor

variable {as bs : List Accessor} {a : Accessor} {name : String}

def Before (a b : Accessor) : Prop := a.name ≤ b.name

instance : DecidableRel Before := fun a b => inferInstanceAs (Decidable (a.name ≤ b.name))

instance : IsTrans Accessor Before := ⟨fun _ _ _ => String.le_trans⟩

instance : Std.Total Before := ⟨fun a b => String.le_total a.name b.name⟩

theorem sortByName_eq (as : List Accessor) : sortByName as = as.insertionSort Before := by
  have inserted (a : Accessor) (rest : List Accessor) :
      insertByName a rest = rest.orderedInsert Before a := by
    induction rest with
    | nil => rfl
    | cons b rest ih =>
      rw [insertByName, List.orderedInsert_cons, ih]
      rfl
  induction as with
  | nil => rfl
  | cons a rest ih =>
    rw [List.insertionSort_cons, ← ih, ← inserted]
    rfl

theorem sortByName_sorted (as : List Accessor) : (sortByName as).Pairwise Before := by
  rw [sortByName_eq]
  exact List.pairwise_insertionSort Before as

def named (name : String) (as : List Accessor) : List Accessor := as.filter (·.name = name)

theorem mem_named : a ∈ named name as ↔ a ∈ as ∧ a.name = name := by
  rw [named, List.mem_filter, decide_eq_true_eq]

theorem named_cons (name : String) (a : Accessor) (as : List Accessor) :
    named name (a :: as) = if a.name = name then a :: named name as else named name as := by
  rw [named, List.filter_cons]
  simp only [decide_eq_true_eq, named]

theorem named_sortByName (name : String) (as : List Accessor) :
    named name (sortByName as) = named name as := by
  -- accessors of one name are in order already, and the sort keeps what is in order
  have ordered : (named name as).Pairwise Before := by
    refine List.pairwise_of_forall_mem_list fun a first b second => ?_
    have sameName := (mem_named.mp first).2.trans (mem_named.mp second).2.symm
    show a.name ≤ b.name
    exact sameName ▸ String.le_refl a.name
  have kept : (named name as).Sublist (sortByName as) := by
    rw [sortByName_eq]
    exact List.sublist_insertionSort ordered List.filter_sublist
  have within := kept.filter (·.name = name)
  rw [named, List.filter_filter] at within
  simp only [Bool.and_self] at within
  exact (within.eq_of_length ((sortByName_perm as).filter _).length_eq.symm).symm

theorem mem_of_named (agree : ∀ name, named name as = named name bs) (listed : a ∈ bs) : a ∈ as := by
  have found : a ∈ named a.name bs := mem_named.mpr ⟨listed, rfl⟩
  rw [← agree] at found
  exact (mem_named.mp found).1

/-- Accessors in order are known by those of each name. -/
theorem eq_of_named (sorted : as.Pairwise Before) (sortedToo : bs.Pairwise Before)
    (agree : ∀ name, named name as = named name bs) : as = bs := by
  induction as generalizing bs with
  | nil =>
    cases bs with
    | nil => rfl
    | cons b bs => exact absurd (mem_of_named agree List.mem_cons_self) List.not_mem_nil
  | cons a as ih =>
    cases bs with
    | nil =>
      have back : ∀ name, named name [] = named name (a :: as) := fun name => (agree name).symm
      exact absurd (mem_of_named back List.mem_cons_self) List.not_mem_nil
    | cons b bs =>
      obtain ⟨least, sorted⟩ := List.pairwise_cons.mp sorted
      obtain ⟨leastToo, laterSorted⟩ := List.pairwise_cons.mp sortedToo
      have upper : a.name ≤ b.name := by
        rcases List.mem_cons.mp (mem_of_named agree List.mem_cons_self) with rfl | later
        · exact String.le_refl b.name
        · exact least b later
      have lower : b.name ≤ a.name := by
        rcases List.mem_cons.mp (mem_of_named (fun name => (agree name).symm) List.mem_cons_self)
          with rfl | later
        · exact String.le_refl a.name
        · exact leastToo a later
      have sameName := String.le_antisymm upper lower
      have here := agree a.name
      rw [named_cons, named_cons, if_pos rfl, if_pos sameName.symm] at here
      obtain ⟨rfl, rest⟩ := List.cons_eq_cons.mp here
      refine congrArg (a :: ·) (ih sorted laterSorted fun name => ?_)
      by_cases same : a.name = name
      · exact same ▸ rest
      · have others := agree name
        rw [named_cons, named_cons, if_neg same, if_neg same] at others
        exact others

end Accessor

namespace AttributeTable

open Accessor

variable {c : Catalog} {kind : TypeId} {t : AttributeTable} {ds : List MemberDecl}

/-- What a table says of some members: each is there once, by name, those of one name in the order in
    which they are listed, and what the table tells of itself, a position or a name fits its
    accessors. -/
structure Lists (t : AttributeTable) (ds : List MemberDecl) : Prop where
  each : t.accessors.Perm (ds.map .ofMember)
  once : (t.accessors.map (·.member)).Nodup
  sorted : t.accessors.Pairwise Before
  stable : ∀ name, named name t.accessors = named name (ds.map .ofMember)
  canFail : ∀ i a, t.get? i = some a →
    ∃ d ∈ ds, a = .ofMember d ∧ t.canFail? i = some d.returns.isDeferred
  canFailLength : t.canFail.length = t.accessors.length
  hasDefault : t.hasDefault = true ↔ ∃ d ∈ ds, d.default.isSome = true
  hasNested : t.hasNested = true ↔ ∃ d ∈ ds, d.returns.isNested = true
  indexOf : ∀ name i, t.indexOf name = some i ↔
    (∃ a, t.get? i = some a ∧ a.name = name) ∧ ∀ j < i, ∀ a, t.get? j = some a → a.name ≠ name
  indexOfAccessor : ∀ i a, t.get? i = some a → t.indexOfAccessor a = some i

theorem indexOf_eq_some_iff {name : String} {i : Nat} : t.indexOf name = some i ↔
    (∃ a, t.get? i = some a ∧ a.name = name) ∧
      ∀ j < i, ∀ a, t.get? j = some a → a.name ≠ name := by
  rw [indexOf, List.findIdx?_eq_some_iff_getElem]
  constructor
  · rintro ⟨bound, here, earlier⟩
    refine ⟨⟨_, List.getElem?_eq_getElem bound, of_decide_eq_true here⟩, fun j before a found => ?_⟩
    obtain ⟨_, rfl⟩ := List.getElem?_eq_some_iff.mp found
    exact fun same => earlier j before (decide_eq_true same)
  · rintro ⟨⟨a, found, same⟩, earlier⟩
    obtain ⟨bound, rfl⟩ := List.getElem?_eq_some_iff.mp found
    refine ⟨bound, decide_eq_true same, fun j before again => ?_⟩
    exact earlier j before _ (List.getElem?_eq_getElem (before.trans bound)) (of_decide_eq_true again)

theorem indexOfAccessor_of_once (once : (t.accessors.map (·.member)).Nodup) {i : Nat} {a : Accessor}
    (found : t.get? i = some a) : t.indexOfAccessor a = some i := by
  obtain ⟨bound, rfl⟩ := List.getElem?_eq_some_iff.mp found
  rw [indexOfAccessor, List.findIdx?_eq_some_iff_getElem]
  refine ⟨bound, decide_eq_true rfl, fun j before again => ?_⟩
  -- two positions with the same member
  have sooner : j < (t.accessors.map (·.member)).length := by
    rw [List.length_map]
    exact before.trans bound
  have same : (t.accessors.map (·.member))[j]? = (t.accessors.map (·.member))[i]? := by
    rw [List.getElem?_map, List.getElem?_map, List.getElem?_eq_getElem bound,
      List.getElem?_eq_getElem (before.trans bound)]
    exact congrArg some (of_decide_eq_true again)
  have positions := (List.getElem?_inj sooner once).mp same
  omega

theorem ofKind_lists (kind : TypeId) (name : String) (once : (ds.map (·.id)).Nodup) :
    (ofKind kind name (ds.map .ofMember)).Lists ds := by
  have aligned := ofKind_aligned kind name (ds.map .ofMember)
  have accessors := accessors_ofKind kind name (ds.map .ofMember)
  have each := sortByName_perm (ds.map .ofMember)
  have apart : ((ofKind kind name (ds.map .ofMember)).accessors.map (·.member)).Nodup := by
    rw [accessors, (each.map _).nodup_iff, List.map_map]
    exact once
  have some_iff (q : Accessor → Bool) : (ofKind kind name (ds.map .ofMember)).accessors.any q = true ↔
      ∃ d ∈ ds, q (.ofMember d) = true := by
    rw [accessors, each.any_eq, List.any_map, List.any_eq_true]
    rfl
  refine ⟨accessors ▸ each, apart, accessors ▸ sortByName_sorted _,
    accessors ▸ fun name => named_sortByName name _, fun i a found => ?_,
    by rw [aligned.canFail, List.length_map], by rw [aligned.hasDefault, some_iff]; rfl,
    by rw [aligned.hasNested, some_iff]; rfl, fun name i => indexOf_eq_some_iff,
    fun i a found => indexOfAccessor_of_once apart found⟩
  have listed := List.mem_of_getElem? found
  rw [accessors, each.mem_iff] at listed
  obtain ⟨d, member, rfl⟩ := List.mem_map.mp listed
  exact ⟨d, member, rfl, by rw [aligned.canFail?, found]; rfl⟩

/-- A table has what a larger one has of its members. -/
theorem Lists.accessors_eq_filter {part : AttributeTable} {p : MemberDecl → Bool}
    {q : Accessor → Bool} (whole : t.Lists ds) (lists : part.Lists (ds.filter p))
    (same : ∀ d ∈ ds, q (.ofMember d) = p d) : part.accessors = t.accessors.filter q := by
  have selected : (ds.map Accessor.ofMember).filter q = (ds.filter p).map .ofMember := by
    rw [List.filter_map]
    exact congrArg _ (List.filter_congr same)
  refine eq_of_named lists.sorted (whole.sorted.sublist List.filter_sublist) fun name => ?_
  calc named name part.accessors
    _ = named name ((ds.map Accessor.ofMember).filter q) := by rw [lists.stable, selected]
    _ = (named name (ds.map .ofMember)).filter q := List.filter_comm ..
    _ = (named name t.accessors).filter q := by rw [whole.stable]
    _ = named name (t.accessors.filter q) := List.filter_comm ..

theorem compute_lists (aligned : c.Aligned) (present : c.isPresent kind = true)
    (restricted : Bool) : ∃ t, compute c kind restricted = .ok t ∧
      t.Lists ((c.membersOf kind).filter fun d => !restricted || d.isAttribute) := by
  obtain ⟨decl, _, loaded⟩ := Catalog.load_of_present present
  have found : (c.memberIds kind).mapM c.memberDecl = .ok (c.membersOf kind) := by
    have each : ∀ d ∈ c.membersOf kind, (c.memberDecl ∘ MemberDecl.id) d = .ok (id d) :=
      fun d listed => (aligned.numbered.memberDecl listed).1
    rw [aligned.memberIds, List.mapM_map, mapM_of_ok each, List.map_id]
  refine ⟨ofKind kind decl.name _, ?_, ofKind_lists kind decl.name ?_⟩
  · simp only [compute, Catalog.typeName, Catalog.typeDecl_of_load loaded, Catalog.declaredMembers,
      loaded, Bind.bind, Except.bind, Pure.pure, Except.pure, found]
  · exact ((List.filter_sublist.trans List.filter_sublist).map _).nodup aligned.numbered.ids_nodup

/-- The tables of a kind, of all its members and of its attributes alone. The second has what the
    first has but the accessors of members that are no attributes. -/
theorem compute_lists_members (built : c.Built) (present : c.isPresent kind = true) :
    ∃ whole restricted, compute c kind false = .ok whole ∧ compute c kind true = .ok restricted ∧
      whole.Lists (c.membersOf kind) ∧
      restricted.Lists ((c.membersOf kind).filter (·.isAttribute)) ∧
      restricted.accessors =
        whole.accessors.filter fun a => (c.member? a.member).any (·.isAttribute) := by
  have numbered := built.aligned.numbered
  obtain ⟨whole, computed, lists⟩ := compute_lists built.aligned present false
  obtain ⟨restricted, computedToo, listsToo⟩ := compute_lists built.aligned present true
  have all : (c.membersOf kind).filter (fun d => !false || d.isAttribute) = c.membersOf kind :=
    List.filter_eq_self.mpr fun _ _ => rfl
  rw [all] at lists
  refine ⟨whole, restricted, computed, computedToo, lists, listsToo, ?_⟩
  refine lists.accessors_eq_filter listsToo fun d listed => ?_
  show (c.member? d.id).any (·.isAttribute) = d.isAttribute
  rw [numbered.member? listed, Option.any_some]

def retryCatalog : Catalog := .ofDecls
  [Catalog.rootDecl,
    ⟨⟨1⟩, "acme.Retry", .recordKind, [], none, [], none, false, true⟩]
  [⟨⟨0⟩, "on", ⟨1⟩, .everyone, [], .array .type, none, none⟩,
    ⟨⟨1⟩, "attempts", ⟨1⟩, .everyone, [], .int, some (.int 3), none⟩,
    ⟨⟨2⟩, "helper", ⟨1⟩, .everyone, [.concrete ⟨0⟩], .bool, none, none⟩,
    ⟨⟨3⟩, "attempts", ⟨1⟩, .everyone, [], .string, none, none⟩]
  []

theorem retryCatalog_built : retryCatalog.Built := by
  have kind := Catalog.Built.initial.define { name := "acme.Retry", flavor := .recordKind }
  have on := kind.addMember ⟨1⟩ { name := "on", returns := .array .type } rfl
  have attempts := on.addMember ⟨1⟩ { name := "attempts", returns := .int, default := some (.int 3) } rfl
  have helper := attempts.addMember ⟨1⟩
    { name := "helper", params := [.concrete ⟨0⟩], returns := .bool } rfl
  exact helper.addMember ⟨1⟩ { name := "attempts", returns := .string } rfl

theorem retryCatalog_lists_members : ∃ whole restricted,
    compute retryCatalog ⟨1⟩ false = .ok whole ∧ compute retryCatalog ⟨1⟩ true = .ok restricted ∧
      whole.Lists (retryCatalog.membersOf ⟨1⟩) ∧
      restricted.Lists ((retryCatalog.membersOf ⟨1⟩).filter (·.isAttribute)) ∧
      restricted.accessors =
        whole.accessors.filter fun a => (retryCatalog.member? a.member).any (·.isAttribute) :=
  compute_lists_members retryCatalog_built rfl

example : (compute retryCatalog ⟨1⟩ false).toOption.map (fun t => t.accessors.map (·.member.index)) =
    some [1, 3, 2, 0] := by decide

end AttributeTable

end Lineage
