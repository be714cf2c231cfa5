import Lineage.Proofs.Attributes
import Lineage.Proofs.Scan.Alone
import Lineage.Proofs.Scan.Claims

namespace Lineage

namespace Course

variable {α β : Type} {P : Event → Prop} {c d : Course α}

def Always (P : Event → Prop) (c : Course α) : Prop := ∀ i, ∀ event ∈ (c.run i).events, P event

theorem Always.ask (answer : Except QueryError α) : Always P (ask answer) := by
  intro i event member
  cases member

theorem Always.pure (a : α) : Always P (pure a) := Always.ask (.ok a)

theorem Always.happen {event : Event} (holds : P event) : Always P (happen event) := by
  intro i other member
  exact List.mem_singleton.mp member ▸ holds

theorem Always.index : Always P index := by
  intro i event member
  cases member

theorem Always.advance : Always P advance := by
  intro i event member
  cases member

theorem Always.bind {next : α → Course β} (first : Always P c)
    (rest : ∀ a i, (c.run i).answer = .ok a → Always P (next a)) : Always P (c >>= next) := by
  intro i event member
  cases ended : (c.run i).answer with
  | error e =>
    rw [run_bind_of_error ended] at member
    exact first i event member
  | ok a =>
    rw [run_bind_of_ok ended] at member
    rcases List.mem_append.mp member with member | member
    · exact first i event member
    · exact rest a i ended _ event member

theorem Always.contain {c : Course Unit} (on : Element) (failure : ∀ e, P (.failure on e))
    (inner : Always P c) : Always P (c.contain on) := by
  intro i event member
  cases ended : (c.run i).answer with
  | ok u =>
    rw [run_contain_of_ok ended] at member
    exact inner i event member
  | error e =>
    rw [run_contain_of_error ended] at member
    rcases List.mem_append.mp member with member | member
    · exact inner i event member
    · exact List.mem_singleton.mp member ▸ failure e

theorem Always.ite {condition : Prop} [Decidable condition] (yes : condition → Always P c)
    (no : ¬condition → Always P d) : Always P (if condition then c else d) := by
  split
  · exact yes ‹_›
  · exact no ‹_›

theorem Always.forM {course : β → Course Unit} (each : ∀ b, Always P (course b)) (bs : List β) :
    Always P (bs.forM course) := by
  induction bs with
  | nil => exact .pure ()
  | cons b bs ih => exact (each b).bind fun _ _ _ => ih

end Course

/-- The elements whose records are shown for an element: it and, for a bridge, what it stands for. -/
inductive Catalog.StandsFor (c : Catalog) : Element → Element → Prop
  | itself {e : Element} : StandsFor c e e
  | bridge {id original : MemberId} {decl : MemberDecl} : c.memberDecl id = .ok decl →
    decl.bridgeOf = some original → StandsFor c (.member id) (.member original)

theorem Catalog.standsFor_of_bridged {c : Catalog} {id target : MemberId}
    (known : c.bridged id = .ok target) : c.StandsFor (.member id) (.member target) := by
  obtain ⟨decl, found, same⟩ := bind_ok known
  cases standsFor : decl.bridgeOf with
  | none =>
    rw [standsFor] at same
    cases same
    exact .itself
  | some original =>
    rw [standsFor] at same
    cases same
    exact .bridge found standsFor

namespace Scan

theorem mem_of_withoutShown {own slots : List Slot} {r : Record}
    (member : some r ∈ withoutShown own slots) : some r ∈ slots := by
  obtain ⟨slot, listed, same⟩ := List.mem_map.mp member
  split at same
  · cases same
  · exact same ▸ listed

theorem Claims.mem_of_claimAll {c : Claims} {slots : List Slot} {r : Record}
    (member : some r ∈ (c.claimAll slots).1) : some r ∈ slots := by
  have shown : r ∈ (c.claimAll slots).1.filterMap id := List.mem_filterMap.mpr ⟨_, member, rfl⟩
  rw [(claimAll_spec c slots).1] at shown
  obtain ⟨slot, listed, same⟩ := List.mem_filterMap.mp (mem_of_allotted shown)
  exact same ▸ listed

end Scan

namespace Scanner

variable {s : Scanner} {id : TypeId}

theorem mem_keepFresh {α : Type} {test : α → Except QueryError Bool} {items kept : List α}
    (known : keepFresh test items = .ok kept) : ∀ a ∈ kept, test a = .ok true := by
  induction items generalizing kept with
  | nil =>
    cases known
    exact fun a none => by cases none
  | cons first rest ih =>
    obtain ⟨passes, tested, known⟩ := bind_ok known
    obtain ⟨others, later, same⟩ := bind_ok known
    cases same
    intro a member
    cases passes with
    | false => exact ih later a member
    | true =>
      rcases List.mem_cons.mp member with rfl | member
      · exact tested
      · exact ih later a member

theorem isPlain_member {member : MemberId} {decl : MemberDecl} {plain : Bool}
    (known : s.catalog.memberDecl member = .ok decl)
    (asked : s.isPlainType decl.declaring = .ok plain) : s.isPlain (.member member) = .ok plain := by
  simp only [isPlain, known, Bind.bind, Except.bind, asked]

theorem notPlain_of_freshMembers {members : List MemberId} (known : s.freshMembers id = .ok members) :
    ∀ m ∈ members, s.isPlain (.member m) = .ok false := by
  intro m listed
  unfold freshMembers at known
  split at known
  · cases known
    cases listed
  obtain ⟨plain, _, known⟩ := bind_ok known
  cases plain with
  | true =>
    cases known
    cases listed
  | false =>
    obtain ⟨type, _, known⟩ := bind_ok known
    obtain ⟨all, _, known⟩ := bind_ok known
    have qualifies := mem_keepFresh known m listed
    obtain ⟨decl, found, qualifies⟩ := bind_ok qualifies
    split at qualifies
    · cases qualifies
    obtain ⟨plain, asked, qualifies⟩ := bind_ok qualifies
    cases plain with
    | true => cases qualifies
    | false => exact isPlain_member found asked

def Straight (s : Scanner) (strategy : Strategy) : Element → Prop
  | .type id => strategy = .direct ∨
      strategy = .inherited ∧ s.catalog.isWithoutHierarchy .inherited (.type id) = .ok true
  | .member _ => strategy = .direct ∨ strategy = .inherited
  | .parameter _ _ => True

end Scanner

namespace Terrain

open Course

/-- What can happen on a scan: of an element some of the records that it or what it stands for has to
    show. -/
inductive Possible (t : Terrain) : Event → Prop
  | enter {index : Nat} : Possible t (.enter index)
  | failure {on : Element} {e : QueryError} : Possible t (.failure on e)
  | records {index : Nat} {source on : Element} {slots part : List Slot} :
    t.scanner.catalog.StandsFor source on → t.shown on = .ok slots →
    (∀ r, some r ∈ part → some r ∈ slots) → Possible t (.records index source part)

structure Suits (t : Terrain) (called : Element → Prop) (P : Event → Prop) : Prop where
  enter : ∀ index, P (.enter index)
  failure : ∀ on e, P (.failure on e)
  records : ∀ {index source own on slots part}, called source → t.shown source = .ok own →
    t.scanner.catalog.StandsFor source on → t.shown on = .ok slots →
    (∀ r, some r ∈ part → some r ∈ slots) → P (.records index source part)

variable {t : Terrain} {walk : TypeId → Course Unit} {called : Element → Prop} {P : Event → Prop}

theorem Suits.own (suits : t.Suits called P) {source : Element} (here : called source)
    {slots : List Slot} (shown : t.shown source = .ok slots) (index : Nat) :
    P (.records index source slots) :=
  suits.records here shown .itself shown fun _ member => member

section

variable (each : ∀ id, Always P (walk id)) (id : TypeId)
include each

theorem sideways_always (interfaces : Bool) : Always P (t.sideways interfaces walk id) :=
  .ite (fun _ => (Always.ask _).bind fun above _ _ => .forM each above) fun _ => .pure ()

theorem upward_always : Always P (t.upward walk id) := by
  refine ((Always.ask _).bind fun above _ _ => .pure _).bind fun above _ _ => ?_
  cases above with
  | none => exact .pure ()
  | some above => exact each above

theorem outward_always (failure : ∀ on e, P (.failure on e)) (enclosing : Bool) :
    Always P (t.outward enclosing walk id) := by
  refine .ite (fun _ => ?_) fun _ => .pure ()
  rcases t.scanner.catalog.enclosing id with e | _ | outer
  · exact .happen (failure _ e)
  · exact .pure ()
  · exact each outer

end

section

variable (suits : t.Suits called P)
include suits

theorem element_always {e : Element} (here : called e) : Always P (t.element e) := by
  unfold element
  rw [declared_eq_ask]
  exact .contain _ (suits.failure _) <| (Always.happen (suits.enter 0)).bind fun _ _ _ =>
    (Always.ask _).bind fun _ _ shown => .happen (suits.own here shown 0)

theorem inheritedLevel_always {id : TypeId} (here : called (.type id)) (source : TypeId)
    (index : Nat) (claims : Option Scan.Claims) :
    Always P (t.inheritedLevel source id index claims) := by
  unfold inheritedLevel
  refine .ite (fun _ => .pure claims) fun admitted => (Always.ask _).bind fun declared _ known => ?_
  have shown : t.shown (.type id) = .ok declared := (if_neg admitted).trans known
  have found : Always P (t.claimsFor source declared claims) := by
    cases claims with
    | some claims => exact .pure _
    | none => exact .ite (fun _ => .pure none) fun _ => (Always.ask _).bind fun _ _ _ => .pure _
  refine found.bind fun claims _ _ => ?_
  cases claims with
  | none => exact (Always.happen (suits.own here shown index)).bind fun _ _ _ => .pure none
  | some claims =>
    have part : P (.records index (.type id) (claims.claimAll declared).1) :=
      suits.records here shown .itself shown fun _ => Scan.Claims.mem_of_claimAll
    exact (Always.happen part).bind fun _ _ _ => .pure _

theorem memberRecords_always {id : MemberId} (here : called (.member id)) (index : Nat) :
    Always P (t.memberRecords index id) := by
  unfold memberRecords
  simp only [declared_eq_ask]
  exact (Always.ask _).bind fun own _ shown =>
    (Always.happen (suits.own here shown index)).bind fun _ _ _ =>
    (Always.ask _).bind fun target _ known => .ite (fun _ => .pure ()) fun _ =>
    (Always.ask _).bind fun others _ given => .happen <|
      suits.records here shown (Catalog.standsFor_of_bridged known) given
        fun _ => Scan.mem_of_withoutShown

theorem showOverridden_always (member : MemberId) (seen : Bool) {candidates : List MemberId}
    (each : ∀ c ∈ candidates, called (.member c)) :
    Always P (t.showOverridden member seen candidates) := by
  induction candidates generalizing seen with
  | nil => exact .pure seen
  | cons candidate rest ih =>
    have later (seen : Bool) := ih seen fun c listed => each c (List.mem_cons_of_mem _ listed)
    exact (Always.ask _).bind fun _ _ _ => .ite
      (fun _ => Always.index.bind fun _ _ _ =>
        (memberRecords_always suits (each _ List.mem_cons_self) _).bind fun _ _ _ => later true)
      fun _ => later seen

end

section

variable (suits : t.Suits (fun e => t.scanner.isPlain e = .ok false) P)
include suits

theorem inheritedFrom_always (source : TypeId) (fuel : Nat) (id : TypeId) (index : Nat)
    (claims : Option Scan.Claims) : Always P (t.inheritedFrom source fuel id index claims) := by
  induction fuel generalizing id index claims with
  | zero => exact .pure ()
  | succ fuel ih =>
    refine .contain _ (suits.failure _) <| .ite (fun _ => .pure ()) fun _ =>
      (Always.ask _).bind fun plain _ asked => .ite (fun _ => .pure ()) fun notPlain => ?_
    rw [Bool.eq_false_iff.mpr notPlain] at asked
    refine (Always.happen (suits.enter index)).bind fun _ _ _ =>
      (inheritedLevel_always suits asked source index claims).bind fun left _ _ =>
      (Always.ask _).bind fun above _ _ => ?_
    cases above with
    | none => exact .pure ()
    | some above => exact ih above (index + 1) left

theorem typeFrom_always (reach : Scan.Reach) (fuel : Nat) (id : TypeId) :
    Always P (t.typeFrom reach fuel id) := by
  induction fuel generalizing id with
  | zero => exact .pure ()
  | succ fuel ih =>
    unfold typeFrom
    rw [declared_eq_ask]
    refine .contain _ (suits.failure _) <| Always.index.bind fun _ _ _ =>
      (Always.happen (suits.enter _)).bind fun _ _ _ => (Always.ask _).bind fun plain _ asked =>
      .ite (fun _ => .pure ()) fun notPlain => ?_
    rw [Bool.eq_false_iff.mpr notPlain] at asked
    have here : t.scanner.isPlain (.type id) = .ok false := asked
    exact (Always.ask _).bind fun _ _ shown => Always.index.bind fun _ _ _ =>
      (Always.happen (suits.own here shown _)).bind fun _ _ _ => Always.advance.bind fun _ _ _ =>
      (sideways_always ih id _).bind fun _ _ _ => (upward_always ih id).bind fun _ _ _ =>
      outward_always ih id suits.failure _

/-- On its own type a member is as plain as the type, and whatever it overrides elsewhere is not. -/
theorem memberLevel_always {member : MemberId} {decl : MemberDecl} {id : TypeId}
    (known : t.scanner.catalog.memberDecl member = .ok decl)
    (notPlain : t.scanner.isPlainType id = .ok false) :
    Always P (t.memberLevel member decl.declaring id) := by
  refine .ite (fun same => Always.index.bind fun _ _ _ => ?_) fun _ => ?_
  · have here : t.scanner.isPlain (.member member) = .ok false :=
      Scanner.isPlain_member known (same ▸ notPlain)
    exact (memberRecords_always suits here _).bind fun _ _ _ => .pure true
  · refine Always.bind (.ite (fun _ => .pure []) fun _ => .ask _) fun candidates i given => ?_
    refine showOverridden_always suits member false fun c listed => ?_
    unfold Terrain.candidates at given
    split at given
    · cases given
      cases listed
    · exact Scanner.notPlain_of_freshMembers given c listed

theorem memberFrom_always (interfaces : Bool) (member : MemberId) (fuel : Nat) (id : TypeId) :
    Always P (t.memberFrom interfaces member fuel id) := by
  induction fuel generalizing id with
  | zero => exact .pure ()
  | succ fuel ih =>
    refine .contain _ (suits.failure _) <| Always.index.bind fun _ _ _ =>
      (Always.happen (suits.enter _)).bind fun _ _ _ => (Always.ask _).bind fun plain _ asked =>
      .ite (fun _ => .pure ()) fun notPlain => (Always.ask _).bind fun decl _ known => ?_
    rw [Bool.eq_false_iff.mpr notPlain] at asked
    have rest : Always P (do
        t.sideways interfaces (t.memberFrom interfaces member fuel) id
        t.upward (t.memberFrom interfaces member fuel) id) :=
      (sideways_always ih id interfaces).bind fun _ _ _ => upward_always ih id
    refine (memberLevel_always suits known asked).bind fun seen _ _ => .ite (fun _ => .pure ()) fun _ => ?_
    cases seen with
    | true => exact Always.advance.bind fun _ _ _ => rest
    | false => exact rest

end

/-- A scan makes its calls for elements that are not plain, or for the one it goes to straight. -/
theorem course_always {strategy : Strategy} {source : Element}
    (suits : t.Suits (fun e => t.scanner.isPlain e = .ok false ∨
      e = source ∧ t.scanner.Straight strategy source) P) (fuel : Nat) :
    Always P (t.course fuel strategy source) := by
  have walks : t.Suits (fun e => t.scanner.isPlain e = .ok false) P :=
    ⟨suits.enter, suits.failure, fun notPlain => suits.records (.inl notPlain)⟩
  have straight (here : t.scanner.Straight strategy source) : Always P (t.element source) :=
    element_always suits (.inr ⟨rfl, here⟩)
  have upward (interfaces : Bool) (id : MemberId) :
      Always P (t.memberUpward interfaces fuel id) := by
    unfold memberUpward
    cases t.scanner.catalog.memberDecl id with
    | error e => exact .happen (suits.failure _ e)
    | ok decl => exact memberFrom_always walks interfaces id fuel decl.declaring
  have alone {id : MemberId} (same : source = .member id)
      (here : t.scanner.Straight strategy source) : Always P (t.memberAlone id) := by
    have called := memberRecords_always suits (.inr ⟨same.symm, here⟩) 0
    exact .contain _ (suits.failure _) <| (Always.happen (suits.enter 0)).bind fun _ _ _ => called
  cases source with
  | type id =>
    cases strategy with
    | direct => exact straight (.inl rfl)
    | inherited =>
      exact .contain _ (suits.failure _) <| (Always.ask _).bind fun _ _ asked =>
        .ite (fun isAlone => straight (.inr ⟨rfl, isAlone ▸ asked⟩))
          fun _ => inheritedFrom_always walks id fuel id 0 none
    | superclass | hierarchy | enclosing => exact typeFrom_always walks _ fuel id
  | member id =>
    cases strategy with
    | direct => exact alone rfl (.inl rfl)
    | inherited => exact alone rfl (.inr rfl)
    | superclass | hierarchy | enclosing => exact upward _ id
  | parameter owner index => exact straight True.intro

theorem course_possible (fuel : Nat) (strategy : Strategy) (source : Element) :
    Always t.Possible (t.course fuel strategy source) :=
  course_always ⟨fun _ => .enter, fun _ _ => .failure,
    fun _ _ standsFor shown part => .records standsFor shown part⟩ fuel

def Admits (t : Terrain) : Element → Prop
  | .type id => t.rejects id = false
  | .member id => ∃ decl, t.scanner.catalog.memberDecl id = .ok decl ∧ t.rejects decl.declaring = false
  | .parameter _ _ => True

/-- A record that may be shown of an element it is attached to. -/
structure Genuine (t : Terrain) (on : Element) (r : Record) : Prop where
  attached : (on, r) ∈ t.scanner.catalog.records
  kind : ∃ kind, t.scanner.catalog.type? r.kind = some kind ∧ kind.present = true ∧
    t.scanner.settings.isIgnorableName kind.name = false
  legible : t.scanner.catalog.Legible r
  admitted : t.Admits on

end Terrain

namespace Scanner

variable {s : Scanner}

theorem mem_freshSlots {e : Element} {slots : List Slot} {r : Record}
    (known : s.freshSlots e = .ok slots) (member : some r ∈ slots) :
    r ∈ s.catalog.recordsOf e ∧ s.isIgnorable r.kind = .ok false ∧ s.freshReadable r = true := by
  obtain ⟨records, declared, known⟩ := bind_ok known
  obtain ⟨found, each, same⟩ := bind_ok known
  obtain ⟨_, _, declared⟩ := bind_ok declared
  cases declared
  cases same
  split at member
  · obtain ⟨other, listed, slot⟩ := (mapM_ok each).2 _ member
    obtain ⟨ignorable, asked, slot⟩ := bind_ok slot
    cases ignorable with
    | true => cases slot
    | false =>
      cases readable : s.freshReadable other with
      | false =>
        simp only [readable] at slot
        cases slot
      | true =>
        simp only [readable] at slot
        cases slot
        exact ⟨listed, asked, readable⟩
  · cases member

end Scanner

namespace Terrain

variable {t : Terrain} {on : Element}

theorem admits_of_owner {owner : Option TypeId} (asked : t.owner on = .ok owner)
    (admitted : owner.any t.rejects = false) : t.Admits on := by
  cases on with
  | type id =>
    cases asked
    exact admitted
  | member id =>
    obtain ⟨decl, known, same⟩ := bind_ok asked
    cases same
    exact ⟨decl, known, admitted⟩
  | parameter owner index => exact True.intro

theorem genuine_of_shown {slots : List Slot} {r : Record} (shown : t.shown on = .ok slots)
    (member : some r ∈ slots) : t.Genuine on r := by
  obtain ⟨owner, asked, shown⟩ := bind_ok shown
  split at shown
  · cases shown
    cases member
  · rename_i admitted
    obtain ⟨listed, ignorable, readable⟩ := Scanner.mem_freshSlots shown member
    obtain ⟨attached, present⟩ := Catalog.mem_recordsOf.mp listed
    refine ⟨attached, ?_, Scanner.legible_of_freshReadable readable,
      admits_of_owner asked (Bool.eq_false_iff.mpr admitted)⟩
    obtain ⟨name, named, same⟩ := bind_ok ignorable
    obtain ⟨decl, known, sameName⟩ := bind_ok named
    cases sameName
    have found := Catalog.type?_of_typeDecl known
    rw [Catalog.isPresent, found] at present
    exact ⟨decl, found, present, Except.ok.inj same⟩

end Terrain

namespace Scan

variable {σ ο : Type}

/-- Every record a scan shows was attached to the element it is shown for or to what that stands for,
    and nothing that hides a record holds of it. -/
theorem shown_records_genuine (s : Scan σ ο) (history : List Operation) (strategy : Strategy)
    (source : Element) :
    ∀ d ∈ Event.deliveries (s.logAfter history strategy source), ∀ r, some r ∈ d.slots →
      ∃ on, s.scanner.catalog.StandsFor d.source on ∧ s.terrain.Genuine on r := by
  intro d member r shown
  obtain ⟨event, logged, same⟩ := List.mem_filterMap.mp member
  have happened := (s.logAfter_prefix history strategy source).subset logged
  have possible := Terrain.course_possible s.depth strategy source 0 event happened
  cases possible with
  | enter => cases same
  | failure => cases same
  | records standsFor known part =>
    cases same
    exact ⟨_, standsFor, Terrain.genuine_of_shown known (part r shown)⟩

def bridging : Scan (List Level) (List Level) where
  scanner := ⟨.ofDecls [Catalog.rootDecl,
    ⟨⟨1⟩, "mark.Checked", .recordKind, [], none, [], none, false, true⟩,
    ⟨⟨2⟩, "shape.Gone", .classType, [], none, [], none, false, false⟩,
    ⟨⟨3⟩, "shape.Parent", .classType, [], some ⟨⟨0⟩, []⟩, [], none, false, true⟩,
    ⟨⟨4⟩, "shape.Child", .classType, [], some ⟨⟨3⟩, []⟩, [], none, false, true⟩]
    [⟨⟨0⟩, "on", ⟨1⟩, .everyone, [], .type, some (.type ⟨3⟩), none⟩,
      ⟨⟨1⟩, "save", ⟨3⟩, .everyone, [], .void, none, none⟩,
      ⟨⟨2⟩, "save", ⟨3⟩, .everyone, [], .void, none, some ⟨1⟩⟩,
      ⟨⟨3⟩, "save", ⟨4⟩, .everyone, [], .void, none, none⟩]
    [(.member ⟨1⟩, .ofKind ⟨1⟩), (.member ⟨1⟩, (Record.ofKind ⟨1⟩).set "on" (.type ⟨2⟩)),
      (.member ⟨2⟩, (Record.ofKind ⟨1⟩).set "on" (.type ⟨4⟩)), (.member ⟨3⟩, .ofKind ⟨1⟩)], {}⟩
  visitor := .levels
  rejects id := id = ⟨4⟩

theorem bridging_shows_genuine :
    ∃ d ∈ Event.deliveries (bridging.logAfter [.clear] .hierarchy (.member ⟨3⟩)), ∃ r,
      some r ∈ d.slots ∧ d.source = .member ⟨2⟩ ∧
      ∃ on, bridging.scanner.catalog.StandsFor d.source on ∧ bridging.terrain.Genuine on r := by
  have second : (Event.deliveries (bridging.logAfter [.clear] .hierarchy (.member ⟨3⟩))).any
      (fun d => d.source = .member ⟨2⟩ && d.slots.length = 2 && d.slots.any Option.isSome) =
        true := by decide +kernel
  obtain ⟨d, member, holds⟩ := List.any_eq_true.mp second
  obtain ⟨both, filled⟩ := Bool.and_eq_true_iff.mp holds
  obtain ⟨slot, listed, isSome⟩ := List.any_eq_true.mp filled
  obtain ⟨r, rfl⟩ := Option.isSome_iff_exists.mp isSome
  exact ⟨d, member, r, listed, of_decide_eq_true (Bool.and_eq_true_iff.mp both).1,
    shown_records_genuine bridging [.clear] .hierarchy (.member ⟨3⟩) d member r listed⟩

end Scan

end Lineage
