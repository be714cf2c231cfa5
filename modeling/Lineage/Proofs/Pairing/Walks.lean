import Lineage.Proofs.Pairing.Scanner
import Lineage.Proofs.Scan.Course

namespace Lineage.Pairing

variable {p : Pairing} {α β α' β' : Type} {R : α → β → Prop} {S : α' → β' → Prop}

/-- Courses that from every index answer alike, go on from the same index and see the same. -/
structure Tracks (p : Pairing) (R : α → β → Prop) (x : Course α) (y : Course β) : Prop where
  answer : ∀ i, Agree p.error R (x.run i).answer (y.run i).answer
  index : ∀ i, (x.run i).index = (y.run i).index
  events : ∀ i, List.Forall₂ p.event (x.run i).events (y.run i).events

namespace Tracks

theorem pure {a : α} {b : β} (related : R a b) : p.Tracks R (pure a) (pure b) :=
  ⟨fun _ => .ok related, fun _ => rfl, fun _ => .nil⟩

theorem ask {x : Except QueryError α} {y : Except QueryError β} (agree : Agree p.error R x y) :
    p.Tracks R (.ask x) (.ask y) :=
  ⟨fun _ => agree, fun _ => rfl, fun _ => .nil⟩

theorem happen {x y : Event} (same : p.event x y) : p.Tracks Eq (.happen x) (.happen y) :=
  ⟨fun _ => .ok rfl, fun _ => rfl, fun _ => .cons same .nil⟩

theorem enter (index : Nat) : p.Tracks Eq (.enter index) (.enter index) :=
  happen (x := .enter index) (y := .enter index) rfl

theorem deliver (index : Nat) {e f : Element} {slots others : List Slot} (paired : p.element e f)
    (related : List.Forall₂ p.slot slots others) :
    p.Tracks Eq (.deliver index e slots) (.deliver index f others) :=
  happen (x := .records index e slots) (y := .records index f others) ⟨rfl, paired, related⟩

theorem report {e f : Element} {x y : QueryError} (paired : p.element e f) (same : p.error x y) :
    p.Tracks Eq (.report e x) (.report f y) :=
  happen (x := .failure e x) (y := .failure f y) ⟨paired, same⟩

theorem here : p.Tracks Eq .index .index := ⟨fun _ => .ok rfl, fun _ => rfl, fun _ => .nil⟩

theorem advance : p.Tracks Eq .advance .advance := ⟨fun _ => .ok rfl, fun _ => rfl, fun _ => .nil⟩

theorem bind {x : Course α} {y : Course β} {f : α → Course α'} {g : β → Course β'}
    (first : p.Tracks R x y) (next : ∀ a b, R a b → p.Tracks S (f a) (g b)) :
    p.Tracks S (x >>= f) (y >>= g) := by
  have cases (i : Nat) :
      (∃ a b, (x.run i).answer = .ok a ∧ (y.run i).answer = .ok b ∧ R a b) ∨
      ∃ e e', (x.run i).answer = .error e ∧ (y.run i).answer = .error e' ∧ p.error e e' := by
    have agree := first.answer i
    generalize (x.run i).answer = left at agree ⊢
    generalize (y.run i).answer = right at agree ⊢
    cases agree with
    | ok related => exact .inl ⟨_, _, rfl, rfl, related⟩
    | error related => exact .inr ⟨_, _, rfl, rfl, related⟩
  constructor
  · intro i
    obtain ⟨a, b, left, right, related⟩ | ⟨e, e', left, right, related⟩ := cases i
    · rw [Course.run_bind_of_ok left, Course.run_bind_of_ok right, first.index i]
      exact (next a b related).answer _
    · rw [Course.run_bind_of_error left, Course.run_bind_of_error right]
      exact .error related
  · intro i
    obtain ⟨a, b, left, right, related⟩ | ⟨e, e', left, right, related⟩ := cases i
    · rw [Course.run_bind_of_ok left, Course.run_bind_of_ok right, first.index i]
      exact (next a b related).index _
    · rw [Course.run_bind_of_error left, Course.run_bind_of_error right]
      exact first.index i
  · intro i
    obtain ⟨a, b, left, right, related⟩ | ⟨e, e', left, right, related⟩ := cases i
    · rw [Course.run_bind_of_ok left, Course.run_bind_of_ok right, first.index i]
      exact List.rel_append (first.events i) ((next a b related).events _)
    · rw [Course.run_bind_of_error left, Course.run_bind_of_error right]
      exact first.events i

theorem contain {x y : Course Unit} {e f : Element} (on : p.element e f) (whole : p.Tracks Eq x y) :
    p.Tracks Eq (x.contain e) (y.contain f) := by
  have cases (i : Nat) :
      ((x.run i).answer = .ok () ∧ (y.run i).answer = .ok ()) ∨
      ∃ e e', (x.run i).answer = .error e ∧ (y.run i).answer = .error e' ∧ p.error e e' := by
    have agree := whole.answer i
    generalize (x.run i).answer = left at agree ⊢
    generalize (y.run i).answer = right at agree ⊢
    cases agree with
    | ok _ => exact .inl ⟨rfl, rfl⟩
    | error related => exact .inr ⟨_, _, rfl, rfl, related⟩
  constructor
  · intro i
    obtain ⟨left, right⟩ | ⟨error, error', left, right, related⟩ := cases i
    · rw [Course.run_contain_of_ok left, Course.run_contain_of_ok right]
      exact whole.answer i
    · rw [Course.run_contain_of_error left, Course.run_contain_of_error right]
      exact .ok rfl
  · intro i
    obtain ⟨left, right⟩ | ⟨error, error', left, right, related⟩ := cases i
    · rw [Course.run_contain_of_ok left, Course.run_contain_of_ok right]
      exact whole.index i
    · rw [Course.run_contain_of_error left, Course.run_contain_of_error right]
      exact whole.index i
  · intro i
    obtain ⟨left, right⟩ | ⟨error, error', left, right, related⟩ := cases i
    · rw [Course.run_contain_of_ok left, Course.run_contain_of_ok right]
      exact whole.events i
    · rw [Course.run_contain_of_error left, Course.run_contain_of_error right]
      exact List.rel_append (whole.events i) (.cons ⟨on, related⟩ .nil)

theorem ite {q r : Prop} [Decidable q] [Decidable r] {x x' : Course α} {y y' : Course β}
    (same : q ↔ r) (yes : q → p.Tracks R x y) (no : ¬q → p.Tracks R x' y') :
    p.Tracks R (if q then x else x') (if r then y else y') := by
  by_cases holds : q
  · rw [if_pos holds, if_pos (same.mp holds)]
    exact yes holds
  · rw [if_neg holds, if_neg (mt same.mpr holds)]
    exact no holds

theorem forM {f : α → Course Unit} {g : β → Course Unit} {as : List α} {bs : List β}
    (inputs : List.Forall₂ R as bs) (each : ∀ a b, R a b → p.Tracks Eq (f a) (g b)) :
    p.Tracks Eq (as.forM f) (bs.forM g) := by
  induction inputs with
  | nil => exact pure rfl
  | cons head _ ih => exact (each _ _ head).bind fun _ _ _ => ih

end Tracks

structure Terrains (p : Pairing) (t u : Terrain) : Prop where
  scanners : p.Scanners t.scanner u.scanner
  rejects : ∀ {a b}, p.type a b → t.rejects a = u.rejects b

structure Claims (p : Pairing) (x y : Scan.Claims) : Prop where
  slots : List.Forall₂ p.slot x.slots y.slots
  remaining : x.remaining = y.remaining

theorem ofRecords_related {visible others : List Record}
    (related : List.Forall₂ p.record visible others) :
    p.Claims (.ofRecords visible) (.ofRecords others) :=
  ⟨List.rel_map (fun _ _ same => .some same) related, related.length_eq⟩

theorem takeFirst_related {k l : TypeId} {slots others : List Slot} (same : p.type k l)
    (related : List.Forall₂ p.slot slots others) :
    Option.Rel (List.Forall₂ p.slot) (Scan.Claims.takeFirst k slots)
      (Scan.Claims.takeFirst l others) := by
  induction related with
  | nil => exact .none
  | cons head rest ih =>
    cases head with
    | none =>
      unfold Scan.Claims.takeFirst
      obtain ⟨first, second⟩ | ⟨_, _, first, second, left⟩ := rel_cases ih
      · rw [first, second]
        exact .none
      · rw [first, second]
        exact .some (.cons .none left)
    | @some r r' record =>
      have kinds := type_eq_iff (record_kind record) same
      unfold Scan.Claims.takeFirst
      by_cases here : r.kind = k
      · rw [if_pos here, if_pos (kinds.mp here)]
        exact .some (.cons .none rest)
      · rw [if_neg here, if_neg (mt kinds.mpr here)]
        obtain ⟨first, second⟩ | ⟨_, _, first, second, left⟩ := rel_cases ih
        · rw [first, second]
          exact .none
        · rw [first, second]
          exact .some (.cons (.some record) left)

theorem claim_related {x y : Scan.Claims} {slot other : Slot} (claims : p.Claims x y)
    (same : p.slot slot other) :
    p.slot (x.claim slot).1 (y.claim other).1 ∧ p.Claims (x.claim slot).2 (y.claim other).2 := by
  cases same with
  | none => exact ⟨.none, claims⟩
  | some record =>
    unfold Scan.Claims.claim
    obtain ⟨first, second⟩ | ⟨_, _, first, second, left⟩ :=
      rel_cases (takeFirst_related (record_kind record) claims.slots)
    · simp only [first, second]
      exact ⟨.none, claims⟩
    · simp only [first, second, claims.remaining]
      exact ⟨.some record, left, rfl⟩

theorem claimAll_related {x y : Scan.Claims} {slots others : List Slot} (claims : p.Claims x y)
    (related : List.Forall₂ p.slot slots others) :
    List.Forall₂ p.slot (x.claimAll slots).1 (y.claimAll others).1 ∧
      p.Claims (x.claimAll slots).2 (y.claimAll others).2 := by
  induction related generalizing x y with
  | nil => exact ⟨.nil, claims⟩
  | cons head _ ih =>
    have first := claim_related claims head
    have rest := ih first.2
    exact ⟨.cons first.1 rest.1, rest.2⟩

theorem slot_beq {x x' y y' : Slot} (first : p.slot x x') (second : p.slot y y') :
    (x == y) = (x' == y') := by
  cases first with
  | none => cases second <;> rfl
  | some record =>
    cases second with
    | none => rfl
    | some other => exact value_beq record _ _ other

theorem withoutShown_related {shown shown' slots slots' : List Slot}
    (seen : List.Forall₂ p.slot shown shown') (related : List.Forall₂ p.slot slots slots') :
    List.Forall₂ p.slot (Scan.withoutShown shown slots) (Scan.withoutShown shown' slots') := by
  apply List.rel_map _ related
  intro x y same
  have known : shown.contains x = shown'.contains y := by
    rw [List.contains_eq_any_beq, List.contains_eq_any_beq]
    exact any_eq_of_forall₂ seen fun _ _ before => slot_beq same before
  show p.slot (if shown.contains x then none else x) (if shown'.contains y then none else y)
  rw [known]
  split
  · exact .none
  · exact same

namespace Terrains

variable {t u : Terrain} (terrains : p.Terrains t u) {a b : TypeId} {m n : MemberId} {e f : Element}
include terrains

theorem owner (paired : p.element e f) :
    Agree p.error (Option.Rel p.type) (t.owner e) (u.owner f) := by
  cases e with
  | type a =>
    cases f with
    | type b => exact .pure (.some paired)
    | member n => cases paired
    | parameter n j => cases paired
  | member m =>
    cases f with
    | type b => cases paired
    | member n =>
      exact (terrains.scanners.catalog.memberDecl paired).bind fun _ _ _ _ related =>
        .pure (.some related.declaring)
    | parameter n j => cases paired
  | parameter m i =>
    cases f with
    | type b => cases paired
    | member n => cases paired
    | parameter n j => exact .pure .none

theorem declared (paired : p.element e f) :
    p.Tracks (List.Forall₂ p.slot) (t.declared e) (u.declared f) := by
  apply (Tracks.ask (terrains.owner paired)).bind
  intro owner owner' same
  have rejected : owner.any t.rejects = owner'.any u.rejects := by
    cases same with
    | none => rfl
    | some type => exact terrains.rejects type
  rw [rejected]
  apply Tracks.ite Iff.rfl
  · intro _
    exact .pure .nil
  · intro _
    exact .ask (terrains.scanners.freshSlots paired)

theorem element (paired : p.element e f) : p.Tracks Eq (t.element e) (u.element f) := by
  apply Tracks.contain paired
  apply (Tracks.enter 0).bind
  intro _ _ _
  apply (terrains.declared paired).bind
  intro slots slots' related
  exact .deliver 0 paired related

theorem claimsFor {claims claims' : Option Scan.Claims} {slots slots' : List Slot}
    (paired : p.type a b) (related : List.Forall₂ p.slot slots slots')
    (claimed : Option.Rel p.Claims claims claims') :
    p.Tracks (Option.Rel p.Claims) (t.claimsFor a slots claims) (u.claimsFor b slots' claims') := by
  cases claimed with
  | some same => exact .pure (.some same)
  | none =>
    have empty : slots.isEmpty = slots'.isEmpty := by cases related <;> rfl
    unfold Terrain.claimsFor
    rw [empty]
    apply Tracks.ite Iff.rfl
    · intro _
      exact .pure .none
    · intro _
      apply (Tracks.ask (terrains.scanners.catalog.visibleRecords paired)).bind
      intro visible visible' records
      exact .pure (.some (ofRecords_related records))

theorem inheritedLevel {source source' : TypeId} (index : Nat) {claims claims' : Option Scan.Claims}
    (from' : p.type source source') (paired : p.type a b)
    (claimed : Option.Rel p.Claims claims claims') :
    p.Tracks (Option.Rel p.Claims) (t.inheritedLevel source a index claims)
      (u.inheritedLevel source' b index claims') := by
  have itself : p.element (.type a) (.type b) := paired
  unfold Terrain.inheritedLevel
  rw [terrains.rejects paired]
  apply Tracks.ite Iff.rfl
  · intro _
    exact .pure claimed
  · intro _
    apply (Tracks.ask (terrains.scanners.freshSlots itself)).bind
    intro slots slots' declared
    apply (terrains.claimsFor from' declared claimed).bind
    intro found found' now
    cases now with
    | none => exact (Tracks.deliver index itself declared).bind fun _ _ _ => .pure .none
    | some same =>
      have shown := claimAll_related same declared
      exact (Tracks.deliver index itself shown.1).bind fun _ _ _ => .pure (.some shown.2)

theorem properSuperclass (paired : p.type a b) :
    p.Tracks (Option.Rel p.type) (t.properSuperclass a) (u.properSuperclass b) := by
  apply (Tracks.ask (terrains.scanners.catalog.superclass paired)).bind
  intro above above' up
  apply Tracks.pure
  cases up with
  | none => exact .none
  | @some x y next =>
    have proper : (x != Catalog.root) = (y != Catalog.root) := by
      rw [bne, bne, type_beq next terrains.scanners.catalog.root]
    rw [Option.filter_some, Option.filter_some, proper]
    split
    · exact .some next
    · exact .none

theorem inheritedFrom {source source' : TypeId} (from' : p.type source source') (fuel : Nat)
    (index : Nat) {claims claims' : Option Scan.Claims} (paired : p.type a b)
    (claimed : Option.Rel p.Claims claims claims') :
    p.Tracks Eq (t.inheritedFrom source fuel a index claims)
      (u.inheritedFrom source' fuel b index claims') := by
  induction fuel generalizing a b index claims claims' with
  | zero => exact .pure rfl
  | succ fuel ih =>
    have itself : p.element (.type a) (.type b) := paired
    have atRoot : decide (a = Catalog.root) = decide (b = Catalog.root) := by
      rw [decide_eq_decide]
      exact type_eq_iff paired terrains.scanners.catalog.root
    have done : claims.any (·.remaining = 0) = claims'.any (·.remaining = 0) := by
      cases claimed with
      | none => rfl
      | some same => rw [Option.any_some, Option.any_some, same.remaining]
    apply Tracks.contain itself
    rw [atRoot, done]
    apply Tracks.ite Iff.rfl
    · intro _
      exact .pure rfl
    · intro _
      apply (Tracks.ask (terrains.scanners.isPlainType paired)).bind
      rintro plain _ rfl
      apply Tracks.ite Iff.rfl
      · intro _
        exact .pure rfl
      · intro _
        apply (Tracks.enter index).bind
        intro _ _ _
        apply (terrains.inheritedLevel index from' paired claimed).bind
        intro left left' now
        apply (Tracks.ask (terrains.scanners.catalog.superclass paired)).bind
        intro above above' up
        cases up with
        | none => exact .pure rfl
        | some next => exact ih (index + 1) next now

theorem inheritedType (fuel : Nat) (paired : p.type a b) :
    p.Tracks Eq (t.inheritedType fuel a) (u.inheritedType fuel b) := by
  have itself : p.element (.type a) (.type b) := paired
  apply Tracks.contain itself
  apply (Tracks.ask (terrains.scanners.catalog.isWithoutHierarchy .inherited itself)).bind
  rintro alone _ rfl
  apply Tracks.ite Iff.rfl
  · intro _
    exact terrains.element itself
  · intro _
    exact terrains.inheritedFrom paired fuel 0 paired .none

section

variable {walk walk' : TypeId → Course Unit}
  (each : ∀ a b, p.type a b → p.Tracks Eq (walk a) (walk' b))
include each

theorem sideways (interfaces : Bool) (paired : p.type a b) :
    p.Tracks Eq (t.sideways interfaces walk a) (u.sideways interfaces walk' b) := by
  apply Tracks.ite Iff.rfl
  · intro _
    exact (Tracks.ask (terrains.scanners.catalog.interfaces paired)).bind fun _ _ above =>
      .forM above each
  · intro _
    exact .pure rfl

theorem upward (paired : p.type a b) : p.Tracks Eq (t.upward walk a) (u.upward walk' b) := by
  apply (terrains.properSuperclass paired).bind
  intro above above' up
  cases up with
  | none => exact .pure rfl
  | some next => exact each _ _ next

theorem outward (enclosing : Bool) (paired : p.type a b) :
    p.Tracks Eq (t.outward enclosing walk a) (u.outward enclosing walk' b) := by
  have itself : p.element (.type a) (.type b) := paired
  apply Tracks.ite Iff.rfl
  · intro _
    have around := terrains.scanners.catalog.enclosing paired
    generalize t.scanner.catalog.enclosing a = first at around ⊢
    generalize u.scanner.catalog.enclosing b = second at around ⊢
    cases around with
    | error same => exact .report itself same
    | ok outer =>
      cases outer with
      | none => exact .pure rfl
      | some next => exact each _ _ next
  · intro _
    exact .pure rfl

end

theorem typeFrom (reach : Scan.Reach) (fuel : Nat) (paired : p.type a b) :
    p.Tracks Eq (t.typeFrom reach fuel a) (u.typeFrom reach fuel b) := by
  induction fuel generalizing a b with
  | zero => exact .pure rfl
  | succ fuel ih =>
    have itself : p.element (.type a) (.type b) := paired
    have each : ∀ a b, p.type a b →
        p.Tracks Eq (t.typeFrom reach fuel a) (u.typeFrom reach fuel b) := fun _ _ => ih
    apply Tracks.contain itself
    apply Tracks.here.bind
    rintro index _ rfl
    apply (Tracks.enter index).bind
    intro _ _ _
    apply (Tracks.ask (terrains.scanners.isPlainType paired)).bind
    rintro plain _ rfl
    apply Tracks.ite Iff.rfl
    · intro _
      exact .pure rfl
    · intro _
      apply (terrains.declared itself).bind
      intro slots slots' related
      apply Tracks.here.bind
      rintro index _ rfl
      apply (Tracks.deliver index itself related).bind
      intro _ _ _
      apply Tracks.advance.bind
      intro _ _ _
      apply (terrains.sideways each reach.interfaces paired).bind
      intro _ _ _
      apply (terrains.upward each paired).bind
      intro _ _ _
      exact terrains.outward each reach.enclosing paired

theorem typeWalk (fuel : Nat) (strategy : Strategy) (paired : p.type a b) :
    p.Tracks Eq (t.typeWalk fuel a strategy) (u.typeWalk fuel b strategy) := by
  have itself : p.element (.type a) (.type b) := paired
  cases strategy with
  | direct => exact terrains.element itself
  | inherited => exact terrains.inheritedType fuel paired
  | superclass | hierarchy | enclosing => exact terrains.typeFrom _ fuel paired

theorem memberRecords (index : Nat) (paired : p.member m n) :
    p.Tracks Eq (t.memberRecords index m) (u.memberRecords index n) := by
  have itself : p.element (.member m) (.member n) := paired
  apply (terrains.declared itself).bind
  intro own own' shown
  apply (Tracks.deliver index itself shown).bind
  intro _ _ _
  apply (Tracks.ask (terrains.scanners.catalog.bridged paired)).bind
  intro target target' standsFor
  apply Tracks.ite (member_eq_iff standsFor paired)
  · intro _
    exact .pure rfl
  · intro _
    have meant : p.element (.member target) (.member target') := standsFor
    apply (terrains.declared meant).bind
    intro others others' related
    exact .deliver index itself (withoutShown_related shown related)

theorem candidates (paired : p.type a b) :
    p.Tracks (List.Forall₂ p.member) (t.candidates a) (u.candidates b) := by
  unfold Terrain.candidates
  rw [terrains.rejects paired]
  apply Tracks.ite Iff.rfl
  · intro _
    exact .pure .nil
  · intro _
    exact .ask (terrains.scanners.freshMembers paired)

theorem showOverridden {listed listed' : List MemberId} (called : Bool) (paired : p.member m n)
    (among : List.Forall₂ p.member listed listed') :
    p.Tracks Eq (t.showOverridden m called listed) (u.showOverridden n called listed') := by
  induction among generalizing called with
  | nil => exact .pure rfl
  | cons head _ ih =>
    apply (Tracks.ask (terrains.scanners.catalog.overrides paired head)).bind
    rintro overridden _ rfl
    apply Tracks.ite Iff.rfl
    · intro _
      apply Tracks.here.bind
      rintro index _ rfl
      exact (terrains.memberRecords index head).bind fun _ _ _ => ih true
    · intro _
      exact ih called

theorem memberLevel {declaring declaring' : TypeId} (paired : p.member m n)
    (home : p.type declaring declaring') (here : p.type a b) :
    p.Tracks Eq (t.memberLevel m declaring a) (u.memberLevel n declaring' b) := by
  apply Tracks.ite (type_eq_iff here home)
  · intro _
    apply Tracks.here.bind
    rintro index _ rfl
    exact (terrains.memberRecords index paired).bind fun _ _ _ => .pure rfl
  · intro _
    apply (terrains.candidates here).bind
    intro listed listed' among
    exact terrains.showOverridden false paired among

theorem memberFrom (interfaces : Bool) (fuel : Nat) (paired : p.member m n) (here : p.type a b) :
    p.Tracks Eq (t.memberFrom interfaces m fuel a) (u.memberFrom interfaces n fuel b) := by
  induction fuel generalizing a b with
  | zero => exact .pure rfl
  | succ fuel ih =>
    have itself : p.element (.member m) (.member n) := paired
    have each : ∀ a b, p.type a b → p.Tracks Eq (t.memberFrom interfaces m fuel a)
        (u.memberFrom interfaces n fuel b) := fun _ _ => ih
    apply Tracks.contain itself
    apply Tracks.here.bind
    rintro index _ rfl
    apply (Tracks.enter index).bind
    intro _ _ _
    apply (Tracks.ask (terrains.scanners.isPlainType here)).bind
    rintro plain _ rfl
    apply Tracks.ite Iff.rfl
    · intro _
      exact .pure rfl
    · intro _
      apply (Tracks.ask (terrains.scanners.catalog.memberDecl paired)).bind
      intro decl decl' related
      apply (terrains.memberLevel paired related.declaring here).bind
      rintro called _ rfl
      rw [related.isPrivate]
      apply Tracks.ite Iff.rfl
      · intro _
        exact .pure rfl
      · intro _
        have onward : p.Tracks Eq
            (do
              t.sideways interfaces (t.memberFrom interfaces m fuel) a
              t.upward (t.memberFrom interfaces m fuel) a)
            (do
              u.sideways interfaces (u.memberFrom interfaces n fuel) b
              u.upward (u.memberFrom interfaces n fuel) b) :=
          (terrains.sideways each interfaces here).bind fun _ _ _ => terrains.upward each here
        apply Tracks.ite Iff.rfl
        · intro _
          exact Tracks.advance.bind fun _ _ _ => onward
        · intro _
          exact onward

theorem memberUpward (interfaces : Bool) (fuel : Nat) (paired : p.member m n) :
    p.Tracks Eq (t.memberUpward interfaces fuel m) (u.memberUpward interfaces fuel n) := by
  have itself : p.element (.member m) (.member n) := paired
  have known := terrains.scanners.catalog.memberDecl paired
  unfold Terrain.memberUpward
  generalize t.scanner.catalog.memberDecl m = first at known ⊢
  generalize u.scanner.catalog.memberDecl n = second at known ⊢
  cases known with
  | error same => exact .report itself same
  | ok related => exact terrains.memberFrom interfaces fuel paired related.declaring

theorem memberWalk (fuel : Nat) (strategy : Strategy) (paired : p.member m n) :
    p.Tracks Eq (t.memberWalk fuel m strategy) (u.memberWalk fuel n strategy) := by
  have itself : p.element (.member m) (.member n) := paired
  have alone : p.Tracks Eq (t.memberAlone m) (u.memberAlone n) :=
    .contain itself ((Tracks.enter 0).bind fun _ _ _ => terrains.memberRecords 0 paired)
  cases strategy with
  | direct | inherited => exact alone
  | superclass | hierarchy | enclosing => exact terrains.memberUpward _ fuel paired

theorem course (fuel : Nat) (strategy : Strategy) (paired : p.element e f) :
    p.Tracks Eq (t.course fuel strategy e) (u.course fuel strategy f) := by
  cases e with
  | type a =>
    cases f with
    | type b => exact terrains.typeWalk fuel strategy paired
    | member n => cases paired
    | parameter n j => cases paired
  | member m =>
    cases f with
    | type b => cases paired
    | member n => exact terrains.memberWalk fuel strategy paired
    | parameter n j => cases paired
  | parameter m i =>
    cases f with
    | type b => cases paired
    | member n => cases paired
    | parameter n j => exact terrains.element paired

/-- What happens on one terrain happens on the other. -/
theorem events (fuel : Nat) (strategy : Strategy) (paired : p.element e f) :
    List.Forall₂ p.event (t.events fuel strategy e) (u.events fuel strategy f) :=
  (terrains.course fuel strategy paired).events 0

end Terrains

end Lineage.Pairing
