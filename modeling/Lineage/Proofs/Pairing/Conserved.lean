import Lineage.Proofs.Catalog.Growth
import Lineage.Proofs.Pairing.Itself
import Lineage.Proofs.Pairing.Operations

namespace Lineage

namespace Catalog

instance (c : Catalog) (e : Element) : Decidable (c.Issued e) :=
  match e with
  | .type id => inferInstanceAs (Decidable (id.index < c.types.length))
  | .member id | .parameter id _ => inferInstanceAs (Decidable (id.index < c.members.length))

structure Closed (c : Catalog) : Prop where
  root : c.Issued (.type root)
  types : ∀ x ∈ c.types, ∀ id ∈ x.types, c.Issued (.type id)
  memberTypes : ∀ x ∈ c.members, ∀ id ∈ x.types, c.Issued (.type id)
  members : ∀ x ∈ c.members, ∀ id ∈ x.members, c.Issued (.member id)
  memberIds : ∀ ids ∈ c.typeMembers, ∀ id ∈ ids, c.Issued (.member id)
  records : ∀ entry ∈ c.records, ∀ id ∈ entry.2.types, c.Issued (.type id)

end Catalog

def Operation.About (c : Catalog) : Operation → Prop
  | .scan _ _ _ source | .knownEmpty _ source => c.Issued source
  | .declared e | .declaredCopy e => c.Issued e
  | .declaredOfKind e kind => c.Issued e ∧ c.Issued (.type kind)
  | .baseMembers id | .attributes id => c.Issued (.type id)
  | .clear => True

namespace Pairing

def own (c : Catalog) : Pairing where
  type a b := a = b ∧ c.Issued (.type a)
  member m n := m = n ∧ c.Issued (.member m)
  parameter _ _ := True
  var _ := Eq
  error := Eq
  type_unique :=
    ⟨fun _ _ _ first second => first.1.trans second.1.symm,
      fun _ _ _ first second => first.1.symm.trans second.1⟩
  member_unique :=
    ⟨fun _ _ _ first second => first.1.trans second.1.symm,
      fun _ _ _ first second => first.1.symm.trans second.1⟩
  var_unique _ := biUnique_eq

variable {c d : Catalog}

theorem literal_own : (own c).Literal := ⟨And.left, And.left, id⟩

theorem element_own {e : Element} (issued : c.Issued e) : (own c).element e e := by
  cases e with
  | type id => exact ⟨rfl, issued⟩
  | member id => exact ⟨rfl, issued⟩
  | parameter id index => exact ⟨⟨rfl, issued⟩, rfl, trivial⟩

theorem issued_of_own {e f : Element} (paired : (own c).element e f) : e = f ∧ c.Issued e := by
  obtain rfl := literal_own.element paired
  cases e with
  | type id => exact ⟨rfl, paired.2⟩
  | member id => exact ⟨rfl, paired.2⟩
  | parameter id index => exact ⟨rfl, paired.1.2⟩

theorem asks_own {op : Operation} (about : op.About c) : (own c).Asks op := by
  cases op with
  | scan visitor rejects strategy source => exact element_own about
  | knownEmpty strategy source => exact element_own about
  | declared e | declaredCopy e => exact element_own about
  | declaredOfKind e kind => exact ⟨element_own about.1, rfl, about.2⟩
  | baseMembers id | attributes id => exact ⟨rfl, about⟩
  | clear => trivial

section

variable (closed : c.Closed)
include closed

theorem type_own {owner : TypeId} {x : TypeDecl} (stored : x ∈ c.types) : (own c).Decl owner x x :=
  decl_self (fun _ _ => rfl) fun id named => ⟨rfl, closed.types x stored id named⟩

theorem member_own {x : MemberDecl} (stored : x ∈ c.members) : (own c).Member x x :=
  member_self (fun _ _ => rfl) (fun id named => ⟨rfl, closed.memberTypes x stored id named⟩)
    fun id named => ⟨rfl, closed.members x stored id named⟩

theorem record_own {e : Element} {r : Record} (stored : (e, r) ∈ c.records) : (own c).record r r :=
  record_self fun id named => ⟨rfl, closed.records (e, r) stored id named⟩

/-- A catalog that goes on from another one says the same of all that the first one has. -/
theorem fits_own (acyclic : c.Acyclic) (begins : c.Begins d) : (own c).Fits c d where
  typeCount := .inr ⟨acyclic, Nat.zero_lt_of_lt closed.root, begins.typeCount⟩
  root := ⟨rfl, closed.root⟩
  type := by
    rintro a _ ⟨rfl, issued⟩
    rw [begins.type _ issued]
    refine rel_self fun x found => type_own closed ?_
    exact List.mem_of_getElem? (Option.mem_toList.mp found)
  member := by
    rintro m _ ⟨rfl, issued⟩
    rw [begins.member _ issued]
    refine rel_self fun x found => member_own closed ?_
    exact List.mem_of_getElem? (Option.mem_toList.mp found)
  memberIds := by
    rintro a _ ⟨rfl, issued⟩
    rw [begins.memberIds _ issued]
    refine List.forall₂_same.mpr fun id there => ⟨rfl, ?_⟩
    obtain ⟨ids, listed, there⟩ := Catalog.mem_memberIds.mp there
    exact closed.memberIds ids (List.mem_of_getElem? listed) id there
  attached := by
    intro e f paired
    obtain ⟨rfl, issued⟩ := issued_of_own paired
    rw [begins.attached _ issued]
    exact List.forall₂_same.mpr fun r there => record_own closed (Element.mem_among.mp there)
  unknownType := by
    rintro a _ ⟨rfl, _⟩ _
    rfl
  unknownMember := by
    rintro m _ ⟨rfl, _⟩ _
    rfl
  absent := by
    rintro a _ x ⟨rfl, _⟩ _ _
    rfl
  outOfRange := by
    rintro m _ x index reason ⟨rfl, _⟩ _ _ _
    rfl

end

end Pairing

namespace Catalog

/-- Another catalog answers every question about a catalog's own types, members and parameters as
    this one does. -/
structure Conserves (c d : Catalog) : Prop where
  typeDecl : ∀ id, c.Issued (.type id) → d.typeDecl id = c.typeDecl id
  memberDecl : ∀ id, c.Issued (.member id) → d.memberDecl id = c.memberDecl id
  superclass : ∀ id, c.Issued (.type id) → d.superclass id = c.superclass id
  interfaces : ∀ id, c.Issued (.type id) → d.interfaces id = c.interfaces id
  enclosing : ∀ id, c.Issued (.type id) → d.enclosing id = c.enclosing id
  declaredRecords : ∀ e, c.Issued e → d.declaredRecords e = c.declaredRecords e
  visibleRecords : ∀ id, c.Issued (.type id) → d.visibleRecords id = c.visibleRecords id
  declaredMembers : ∀ id, c.Issued (.type id) → d.declaredMembers id = c.declaredMembers id
  publicMembers : ∀ id, c.Issued (.type id) → d.publicMembers id = c.publicMembers id
  parameterTypes : ∀ id, c.Issued (.member id) → d.parameterTypes id = c.parameterTypes id
  resolveParameter : ∀ id index against, c.Issued (.member id) → c.Issued (.type against) →
    d.resolveParameter id index against = c.resolveParameter id index against
  isAssignable : ∀ target source, c.Issued (.type target) → c.Issued (.type source) →
    d.isAssignable target source = c.isAssignable target source
  bridged : ∀ id, c.Issued (.member id) → d.bridged id = c.bridged id
  readAttribute : ∀ entry ∈ c.records, ∀ accessor, c.Issued (.member accessor) →
    d.readAttribute entry.2 accessor = c.readAttribute entry.2 accessor

variable {c d : Catalog}

open Pairing (own literal_own)

theorem Begins.conserves (begins : c.Begins d) (closed : c.Closed) (acyclic : c.Acyclic) :
    c.Conserves d := by
  have fits : (own c).Fits c d := Pairing.fits_own closed acyclic begins
  -- where the answers agree as the pairing says, they are the same
  have settle {α : Type} {R : α → α → Prop} {x y : Except QueryError α}
      (agree : Agree (own c).error R x y) (same : ∀ a b, R a b → a = b) : y = x :=
    (literal_own.agree agree same).1.symm
  have types {as bs : List TypeId} (related : List.Forall₂ (own c).type as bs) : as = bs :=
    eq_of_forall₂ related fun _ _ => literal_own.type
  have members {as bs : List MemberId} (related : List.Forall₂ (own c).member as bs) : as = bs :=
    eq_of_forall₂ related fun _ _ => literal_own.member
  have records {as bs : List Record} (related : List.Forall₂ (own c).record as bs) : as = bs :=
    eq_of_forall₂ related fun _ _ => literal_own.record
  have type? {a b : Option TypeId} (related : Option.Rel (own c).type a b) : a = b :=
    eq_of_rel related fun _ _ => literal_own.type
  exact {
    typeDecl := fun id issued => by
      unfold Catalog.typeDecl
      rw [begins.type _ issued]
    memberDecl := fun id issued => by
      unfold Catalog.memberDecl
      rw [begins.member _ issued]
    superclass := fun id issued => settle (fits.superclass ⟨rfl, issued⟩) fun _ _ => type?
    interfaces := fun id issued => settle (fits.interfaces ⟨rfl, issued⟩) fun _ _ => types
    enclosing := fun id issued => settle (fits.enclosing ⟨rfl, issued⟩) fun _ _ => type?
    declaredRecords := fun e issued =>
      settle (fits.declaredRecords (Pairing.element_own issued)) fun _ _ => records
    visibleRecords := fun id issued => settle (fits.visibleRecords ⟨rfl, issued⟩) fun _ _ => records
    declaredMembers := fun id issued => settle (fits.declaredMembers ⟨rfl, issued⟩) fun _ _ => members
    publicMembers := fun id issued => settle (fits.publicMembers ⟨rfl, issued⟩) fun _ _ => members
    parameterTypes := fun id issued => settle (fits.parameterTypes ⟨rfl, issued⟩) fun _ _ => types
    resolveParameter := fun id index against issued known =>
      settle (fits.resolveParameter index ⟨rfl, issued⟩ ⟨rfl, known⟩) fun _ _ => type?
    isAssignable := fun target source issued known =>
      settle (fits.isAssignable ⟨rfl, issued⟩ ⟨rfl, known⟩) fun _ _ => id
    bridged := fun id issued => settle (fits.bridged ⟨rfl, issued⟩) fun _ _ => literal_own.member
    readAttribute := fun entry stored accessor issued => by
      have read := fits.readAttribute (Pairing.record_own closed stored) ⟨rfl, issued⟩
      exact settle (read.imp fun _ _ same => same.elim id id) fun _ _ => literal_own.val }

/-- Adding to a catalog changes no answer about what it had: no query, and nothing that happens in a
    scan, however the scanner is set. -/
theorem growth_conserves (c d : Catalog) (acyclic : c.Acyclic) (closed : c.Closed)
    (grows : c.Grows d) :
    c.Conserves d ∧
    ∀ settings ops, (∀ op ∈ ops, op.About c) →
      Scanner.performAll ⟨d, settings⟩ ops .empty = Scanner.performAll ⟨c, settings⟩ ops .empty := by
  have begins := grows.begins
  refine ⟨begins.conserves closed acyclic, fun settings ops about => ?_⟩
  have scanners : (own c).Scanners ⟨c, settings⟩ ⟨d, settings⟩ :=
    ⟨Pairing.fits_own closed acyclic begins, rfl⟩
  rw [Scanner.performAll_eq_freshAnswers, Scanner.performAll_eq_freshAnswers]
  apply List.map_congr_left
  intro op asked
  rw [(literal_own.answer scanners op (Pairing.asks_own (about op asked))).1]

def seedling : Catalog := .ofDecls
  [rootDecl,
    ⟨⟨1⟩, "Mark", .recordKind, [], none, [], none, true, true⟩,
    ⟨⟨2⟩, "Base", .classType, [], some ⟨root, []⟩, [], none, false, true⟩,
    ⟨⟨3⟩, "Sub", .classType, [], some ⟨⟨2⟩, []⟩, [], none, false, true⟩]
  [⟨⟨0⟩, "run", ⟨2⟩, .everyone, [.concrete ⟨2⟩], .void, none, none⟩]
  [(.type ⟨2⟩, ⟨⟨1⟩, []⟩)]

def serpent : TypeDef :=
  { name := "Serpent", flavor := .classType, superclass := some ⟨⟨5⟩, []⟩, records := [⟨⟨1⟩, []⟩] }

def overgrown : Catalog :=
  (((seedling.declareAbsent "Gone").2.define serpent).2.withMember ⟨5⟩ { name := "bite" }).attach
    (.member ⟨1⟩) ⟨⟨1⟩, []⟩

theorem seedling_grows : seedling.Grows overgrown := by
  have absent : seedling.Grows (seedling.declareAbsent "Gone").2 :=
    .declareAbsent "Gone" .same (by decide)
  have defined := Grows.define serpent absent (by decide)
  have added := Grows.addMember ⟨5⟩ { name := "bite" } defined (by decide)
    rfl
  exact .attach (.member ⟨1⟩) ⟨⟨1⟩, []⟩ added (by decide)

def seedlingQuestions : List Operation :=
  [.scan Visitor.levels (fun _ => false) .hierarchy (.type ⟨3⟩), .baseMembers ⟨2⟩]

theorem seedling_conserved :
    ¬overgrown.Acyclic ∧ overgrown.visibleRecords ⟨3⟩ = seedling.visibleRecords ⟨3⟩ ∧
    Scanner.performAll ⟨overgrown, {}⟩ seedlingQuestions .empty =
      Scanner.performAll ⟨seedling, {}⟩ seedlingQuestions .empty := by
  have falls : seedling.Falls TypeDecl.links (·.index) := by decide
  have closed : seedling.Closed := ⟨by decide, by decide, by decide, by decide, by decide, by decide⟩
  obtain ⟨queries, scans⟩ := growth_conserves seedling overgrown falls.acyclic closed seedling_grows
  refine ⟨?_, queries.visibleRecords ⟨3⟩ (by decide), scans {} _ ?_⟩
  · intro acyclic
    have bites : overgrown.Leads TypeDecl.links ⟨5⟩ ⟨5⟩ := ⟨_, rfl, by decide⟩
    exact acyclic ⟨5⟩ (.single bites)
  · intro op asked
    simp only [seedlingQuestions, List.mem_cons, List.not_mem_nil, or_false] at asked
    rcases asked with rfl | rfl
    · show 3 < 4
      decide
    · show 2 < 4
      decide

end Catalog

end Lineage
