import Lineage.Proofs.Catalog.Single
import Lineage.Proofs.Scan.Ascent

namespace Lineage

variable {id : TypeId} {member d : MemberDecl}

namespace Catalog

/-- Each member is called for once at most, or twice if it is a bridge. -/
def ShownOnce (c : Catalog) (calls : List Delivery) : Prop :=
  ∀ d ∈ c.members, (calls.map (·.source)).count (.member d.id) ≤ if d.isBridge then 2 else 1

def Offers (c : Catalog) (member : MemberDecl) (type : TypeId) (d : MemberDecl) : Prop :=
  if type = member.declaring then d = member
  else c.overrides member.id d.id = .ok true ∧ (d.declaring = type ∨
    (c.type? type).any (·.isInterface) ∧ d.visibility = .everyone ∧
      c.Reaches TypeDecl.above type d.declaring)

end Catalog

namespace Scanner

variable {s : Scanner} {type : TypeId} {shown : List MemberDecl} {level : Nat}

theorem path_of_way {turns : List Nat} {last : TypeId} (way : s.Way ⟨true, false⟩ id turns last) :
    s.catalog.Path TypeDecl.above id turns last := by
  induction way with
  | here _ => exact .here
  | @turn _ next _ decl position _ _ found edge _ ih =>
    obtain ⟨rest, whole⟩ := edges_prefix_above decl
    have bound := (List.getElem?_eq_some_iff.mp edge).1
    refine .turn found ?_ ih
    rw [← whole, List.getElem?_append_left bound, edge]

theorem ends_nodup {fuel : Nat} (single : s.catalog.SinglePaths TypeDecl.above id)
    (grounded : s.catalog.Grounded TypeDecl.above id)
    (enough : s.catalog.rank TypeDecl.above id ≤ fuel) :
    ((s.ways ⟨true, false⟩ fuel id).map Prod.snd).Nodup := by
  rw [List.Nodup, List.pairwise_map]
  refine (ways_ordered fuel id).imp_of_mem fun {a b} first second before same => ?_
  have path {way : List Nat × TypeId} (listed : way ∈ s.ways ⟨true, false⟩ fuel id) :
      s.catalog.Path TypeDecl.above id way.1 way.2 :=
    path_of_way ((mem_ways edges_subset_above grounded enough way.1 way.2).mp listed)
  have turns := single b.2 a.1 b.1 (same ▸ path first) (path second)
  rw [turns] at before
  exact List.lex_irrefl Nat.lt_irrefl b.1 before

theorem sources_calls (level : Nat) (d : MemberDecl) :
    (Event.deliveries (s.calls MemberDecl.original? level d)).map (·.source) =
      List.replicate (1 + d.original?.toList.length) (.member d.id) := by
  rw [calls]
  cases d.original? <;> rfl

theorem sources_shown : (Event.deliveries (shown.flatMap (s.calls MemberDecl.original? level))).map
    (·.source) =
      shown.flatMap fun d => List.replicate (1 + d.original?.toList.length) (.member d.id) := by
  induction shown with
  | nil => rfl
  | cons d rest ih =>
    rw [List.flatMap_cons, Event.deliveries_append, List.map_append, ih, sources_calls,
      List.flatMap_cons]

theorem length_original? (d : MemberDecl) :
    1 + d.original?.toList.length ≤ if d.isBridge then 2 else 1 := by
  unfold MemberDecl.original? MemberDecl.isBridge
  rcases d.bridgeOf with _ | original
  · exact Nat.le_refl 1
  · rw [Option.filter_some]
    split
    · exact Nat.le_refl 2
    · exact Nat.le_succ 1

theorem count_shown_le (apart : (shown.map (·.id)).Nodup) {id : MemberId} {bound : Nat}
    (each : ∀ d ∈ shown, d.id = id → (if d.isBridge then 2 else 1) ≤ bound) :
    ((Event.deliveries (shown.flatMap (s.calls MemberDecl.original? level))).map (·.source)).count
      (.member id) ≤ bound := by
  rw [sources_shown]
  induction shown with
  | nil => exact Nat.zero_le bound
  | cons d rest ih =>
    obtain ⟨new, apart⟩ := List.nodup_cons.mp apart
    have later := ih apart fun e listed => each e (List.mem_cons_of_mem _ listed)
    rw [List.flatMap_cons, List.count_append, List.count_replicate]
    by_cases own : d.id = id
    · have none : Element.member id ∉ rest.flatMap fun d =>
          List.replicate (1 + d.original?.toList.length) (.member d.id) := by
        intro again
        obtain ⟨e, listed, again⟩ := List.mem_flatMap.mp again
        have same := List.eq_of_mem_replicate again
        injection same with same
        exact new (List.mem_map.mpr ⟨e, listed, same.symm.trans own.symm⟩)
      rw [List.count_eq_zero.mpr none, Nat.add_zero, own, beq_self_eq_true, if_pos rfl]
      exact (length_original? d).trans (each d List.mem_cons_self own)
    · rw [if_neg (by simpa using own), Nat.zero_add]
      exact later

structure Stage (s : Scanner) (member : MemberDecl) where
  type : TypeId
  level : Nat
  calls : List Delivery
  begins : calls <+:
    Event.deliveries ((s.shownOn member type).flatMap (s.calls MemberDecl.original? level))

section

variable (aligned : s.catalog.Aligned) (known : s.catalog.memberDecl member.id = .ok member)
include aligned

theorem shownOn_nodup (type : TypeId) : ((s.shownOn member type).map (·.id)).Nodup := by
  unfold shownOn
  split
  · exact List.nodup_singleton _
  · exact (List.filter_sublist.map _).nodup (candidates_ids_nodup aligned type)

include known

theorem known_of_shownOn (grounded : s.catalog.Grounded TypeDecl.above type)
    (shown : d ∈ s.shownOn member type) : s.catalog.memberDecl d.id = .ok d := by
  unfold shownOn at shown
  split at shown
  · rw [List.mem_singleton.mp shown, known]
  · exact (declaring_of_mem_candidates aligned grounded (List.mem_filter.mp shown).1).1

omit known in
theorem offers_of_shownOn (grounded : s.catalog.Grounded TypeDecl.above type)
    (shown : d ∈ s.shownOn member type) : s.catalog.Offers member type d := by
  unfold shownOn at shown
  unfold Catalog.Offers
  split
  · rename_i own
    rw [if_pos own] at shown
    exact List.mem_singleton.mp shown
  · rename_i other
    rw [if_neg other] at shown
    obtain ⟨candidate, overridden⟩ := List.mem_filter.mp shown
    refine ⟨of_decide_eq_true overridden, ?_⟩
    have listed := (List.mem_filter.mp candidate).1
    split at listed
    · rename_i interface
      obtain ⟨t, above, listed⟩ := List.mem_flatMap.mp listed
      obtain ⟨declared, visible⟩ := List.mem_filter.mp listed
      obtain ⟨_, rfl⟩ := aligned.numbered.memberDecl declared
      exact .inr ⟨interface, of_decide_eq_true visible, (Catalog.mem_lineage grounded).mp above⟩
    · exact .inl (aligned.numbered.memberDecl (List.mem_filter.mp listed).1).2

theorem Stage.shownOnce (stage : s.Stage member)
    (grounded : s.catalog.Grounded TypeDecl.above stage.type) : s.catalog.ShownOnce stage.calls := by
  intro d listed
  have within := (stage.begins.map (·.source)).sublist.count_le (.member d.id)
  refine within.trans (count_shown_le (shownOn_nodup aligned stage.type) fun e shown same => ?_)
  have listedToo :=
    Catalog.mem_members_of_memberDecl (known_of_shownOn aligned known grounded shown)
  rw [List.inj_on_of_nodup_map aligned.numbered.ids_nodup listedToo listed same]

theorem Stage.offered (stage : s.Stage member)
    (grounded : s.catalog.Grounded TypeDecl.above stage.type) {call : Delivery}
    (made : call ∈ stage.calls) :
    ∃ d ∈ s.catalog.members, call.source = .member d.id ∧ s.catalog.Offers member stage.type d := by
  have source := List.mem_map_of_mem (f := (·.source)) (stage.begins.subset made)
  rw [sources_shown] at source
  obtain ⟨d, shown, same⟩ := List.mem_flatMap.mp source
  have listed := Catalog.mem_members_of_memberDecl (known_of_shownOn aligned known grounded shown)
  exact ⟨d, listed, List.eq_of_mem_replicate same, offers_of_shownOn aligned grounded shown⟩

end

end Scanner

namespace Course

variable {α β : Type} {s : Scanner} {calls more : Nat → List Event} {c : Course α}
  {types others : List TypeId}

structure Makes (calls : Nat → List Event) (c : Course α) : Prop where
  stays : ∀ level, (c.run level).index = level
  begins : ∀ level, (c.run level).events <+: calls level
  all : ∀ level a, (c.run level).answer = .ok a → (c.run level).events = calls level

theorem makes_of_run {a : α} (ran : ∀ level, c.run level = ⟨.ok a, level, calls level⟩) :
    Makes calls c where
  stays level := by rw [ran]
  begins level := by rw [ran]
  all level _ _ := by rw [ran]

theorem makes_of_failure {e : QueryError} (stays : ∀ level, (c.run level).index = level)
    (begins : ∀ level, (c.run level).events <+: calls level)
    (failed : ∀ level, (c.run level).answer = .error e) : Makes calls c where
  stays := stays
  begins := begins
  all level a ended := by
    rw [failed] at ended
    cases ended

theorem Makes.bind {next : α → Course β} (first : Makes calls c) (rest : ∀ a, Makes more (next a)) :
    Makes (fun level => calls level ++ more level) (c >>= next) := by
  have whole (level : Nat) : ((c >>= next).run level).index = level ∧
      ((c >>= next).run level).events <+: calls level ++ more level ∧
        ∀ b, ((c >>= next).run level).answer = .ok b →
          ((c >>= next).run level).events = calls level ++ more level := by
    cases ended : (c.run level).answer with
    | error e =>
      rw [run_bind_of_error ended]
      refine ⟨first.stays level, (first.begins level).trans (List.prefix_append _ _), ?_⟩
      intro b done
      cases done
    | ok a =>
      rw [run_bind_of_ok ended, first.stays, first.all level a ended]
      refine ⟨(rest a).stays level, (List.prefix_append_right_inj _).mpr ((rest a).begins level), ?_⟩
      exact fun b done => congrArg (calls level ++ ·) ((rest a).all level b done)
  exact ⟨fun level => (whole level).1, fun level => (whole level).2.1, fun level => (whole level).2.2⟩

theorem events_bind_of_silent {next : α → Course β}
    (silent : ∀ a i, ((next a).run i).events = []) (level : Nat) :
    ((c >>= next).run level).events = (c.run level).events := by
  cases ended : (c.run level).answer with
  | error e => rw [run_bind_of_error ended]
  | ok a =>
    rw [run_bind_of_ok ended]
    show (c.run level).events ++ ((next a).run _).events = _
    rw [silent, List.append_nil]

def Tours (s : Scanner) (member : MemberDecl) (c : Course Unit) (types : List TypeId) : Prop :=
  ∀ level, ∃ stages : List (s.Stage member),
    Event.deliveries (c.run level).events = stages.flatMap (·.calls) ∧
      (stages.map (·.type)).Sublist types

theorem Tours.append {c d : Course Unit} (first : Tours s member c types)
    (rest : Tours s member d others) : Tours s member (c >>= fun _ => d) (types ++ others) := by
  intro level
  obtain ⟨stages, shown, visited⟩ := first level
  cases ended : (c.run level).answer with
  | error e =>
    rw [run_bind_of_error ended]
    exact ⟨stages, shown, visited.trans (List.sublist_append_left _ _)⟩
  | ok u =>
    obtain ⟨more, shownToo, visitedToo⟩ := rest (c.run level).index
    rw [run_bind_of_ok ended]
    refine ⟨stages ++ more, ?_, ?_⟩
    · rw [Event.deliveries_append, shown, shownToo, List.flatMap_append]
    · rw [List.map_append]
      exact visited.append visitedToo

theorem Tours.composes : Composes (Tours s member) :=
  ⟨fun _ => ⟨[], rfl, .slnil⟩, .append⟩

theorem Tours.contain {c : Course Unit} (tours : Tours s member c types) (on : Element) :
    Tours s member (c.contain on) types := by
  intro level
  obtain ⟨stages, shown, visited⟩ := tours level
  cases ended : (c.run level).answer with
  | ok u =>
    rw [run_contain_of_ok ended]
    exact ⟨stages, shown, visited⟩
  | error e =>
    rw [run_contain_of_error ended]
    refine ⟨stages, ?_, visited⟩
    rw [Event.deliveries_append, shown]
    exact List.append_nil _

theorem Tours.entering {c : Course Unit} (tours : Tours s member c types) :
    Tours s member (do enter (← Course.index); c) types := tours

theorem tours_level {c : Course Unit} (id : TypeId)
    (begins : ∀ level, (c.run level).events <+:
      (s.shownOn member id).flatMap (s.calls MemberDecl.original? level)) :
    Tours s member c [id] := fun level =>
  ⟨[⟨id, level, _, (begins level).filterMap Event.delivery?⟩], (List.append_nil _).symm, .refl _⟩

end Course

namespace Terrain

open Course

variable {t : Terrain} {fuel : Nat}

section

variable (unfiltered : ∀ id, t.rejects id = false)
include unfiltered

/-- The second call for a bridge is missing if what it stands for cannot be loaded. -/
theorem memberRecords_makes (known : t.scanner.catalog.memberDecl d.id = .ok d)
    (present : t.scanner.catalog.isPresent d.declaring = true) :
    Makes (fun level => t.scanner.calls MemberDecl.original? level d)
      (do t.memberRecords (← index) d.id) := by
  by_cases bridges : ∀ original, d.bridgeOf = some original → ∃ o,
      t.scanner.catalog.memberDecl original = .ok o ∧
        t.scanner.catalog.isPresent o.declaring = true
  · exact makes_of_run fun level => memberRecords_run unfiltered known present bridges level level
  · obtain ⟨original, bridge, broken⟩ : ∃ original, d.bridgeOf = some original ∧ ¬∃ o,
        t.scanner.catalog.memberDecl original = .ok o ∧
          t.scanner.catalog.isPresent o.declaring = true := by
      simpa only [not_forall, exists_prop] using bridges
    have own := Scanner.freshSlots_of_loaded (s := t.scanner)
      (Catalog.loadElement_member_of_present known present)
    have target : t.scanner.catalog.bridged d.id = .ok original := by
      rw [Catalog.bridged_of_known known, bridge, Option.getD_some]
    have other : original ≠ d.id := by
      rintro rfl
      exact broken ⟨d, known, present⟩
    obtain ⟨e, missing⟩ : ∃ e, t.scanner.freshSlots (.member original) = .error e := by
      cases asked : t.scanner.freshSlots (.member original) with
      | error e => exact ⟨e, rfl⟩
      | ok slots => exact absurd (Scanner.member_of_freshSlots asked) broken
    have ran (level : Nat) : (do t.memberRecords (← index) d.id : Course Unit).run level =
        ⟨.error e, level, [.records level (.member d.id) (t.scanner.slotsOf (.member d.id))]⟩ := by
      show (t.memberRecords level d.id).run level = _
      simp only [memberRecords, declared_unfiltered unfiltered, own, target, missing, ask_ok, other,
        ↓reduceIte]
      rfl
    refine makes_of_failure (e := e) (fun level => by rw [ran]) (fun level => ?_)
      fun level => by rw [ran]
    rw [ran, Scanner.calls]
    exact ⟨_, rfl⟩

omit unfiltered in
theorem showOverridden_makes {ds : List MemberDecl} (called : Bool)
    (each : ∀ d ∈ ds, Makes (fun level => t.scanner.calls MemberDecl.original? level d)
      (do t.memberRecords (← index) d.id)) :
    let overridden := ds.filter fun d => t.scanner.catalog.overrides member.id d.id = .ok true
    Makes (fun level => overridden.flatMap (t.scanner.calls MemberDecl.original? level))
      (t.showOverridden member.id called (ds.map (·.id))) := by
  induction ds generalizing called with
  | nil => exact makes_of_run fun _ => rfl
  | cons d rest ih =>
    have later (called : Bool) :=
      ih called fun other listed => each other (List.mem_cons_of_mem _ listed)
    simp only [List.map_cons, showOverridden]
    rcases asked : t.scanner.catalog.overrides member.id d.id with e | _ | _
    · exact makes_of_failure (fun _ => rfl) (fun _ => List.nil_prefix) fun _ => rfl
    · rw [ask_ok, if_neg Bool.false_ne_true, List.filter_cons_of_neg (by simp [asked])]
      exact later called
    · rw [ask_ok, if_pos rfl, List.filter_cons_of_pos (by simp [asked]), ← bind_assoc]
      exact (each d List.mem_cons_self).bind fun _ => later true

section

variable (aligned : t.scanner.catalog.Aligned)
  (known : t.scanner.catalog.memberDecl member.id = .ok member)
  (source : t.scanner.catalog.isPresent member.declaring = true)
include aligned known source

theorem memberLevel_begins (grounded : t.scanner.catalog.Grounded TypeDecl.above id)
    (notPlain : t.scanner.plain id = false) (level : Nat) :
    ((t.memberLevel member.id member.declaring id).run level).events <+:
      (t.scanner.shownOn member id).flatMap (t.scanner.calls MemberDecl.original? level) := by
  unfold memberLevel Scanner.shownOn
  split
  · have own : Makes (fun level => t.scanner.calls MemberDecl.original? level member)
        (do t.memberRecords (← index) member.id) :=
      memberRecords_makes unfiltered known source
    have shown : Makes (fun level => t.scanner.calls MemberDecl.original? level member ++ [])
        (do t.memberRecords (← index) member.id; pure true) := by
      rw [← bind_assoc]
      exact own.bind fun _ => makes_of_run fun _ => rfl
    rw [List.flatMap_singleton, ← List.append_nil (t.scanner.calls _ level member)]
    exact shown.begins level
  · rw [candidates, unfiltered, if_neg Bool.false_ne_true]
    by_cases inner : id = Catalog.root
    · -- an interface link may lead to the root, where no member is looked for
      have nothing : t.scanner.freshMembers id = .ok [] := by
        rw [Scanner.freshMembers, if_pos inner]
        rfl
      rw [nothing]
      exact List.nil_prefix
    · rw [Scanner.freshMembers_of_grounded aligned grounded inner notPlain, ask_ok]
      refine (showOverridden_makes false fun d listed => ?_).begins level
      obtain ⟨found, present⟩ := Scanner.declaring_of_mem_candidates aligned grounded listed
      exact memberRecords_makes unfiltered found present

theorem memberFrom_tours (notPrivate : member.isPrivate = false)
    (grounded : t.scanner.catalog.Grounded TypeDecl.above id)
    (enough : t.scanner.catalog.rank TypeDecl.above id ≤ fuel) :
    Tours t.scanner member (t.memberFrom true member.id fuel id)
      ((t.scanner.ways ⟨true, false⟩ fuel id).map Prod.snd) := by
  induction fuel generalizing id with
  | zero =>
    have := grounded.rank_pos
    omega
  | succ fuel ih =>
    obtain ⟨decl, found, loaded, onward⟩ := grounded.step
    have plain := Scanner.plain_of_found found
    have present (next : TypeId) (above : next ∈ decl.above) :
        t.scanner.catalog.isPresent next = true := (onward next above).1.here
    have each (next : TypeId) (edge : next ∈ Scan.Reach.edges ⟨true, false⟩ decl) :
        Tours t.scanner member (t.memberFrom true member.id fuel next)
          ((t.scanner.ways ⟨true, false⟩ fuel next).map Prod.snd) := by
      obtain ⟨further, lower⟩ := onward next (edges_subset_above decl edge)
      exact ih further (by omega)
    refine .contain (.entering ?_) _
    rw [isPlainType_asked found]
    simp only [Scanner.ways, found]
    cases isPlain : t.scanner.settings.isPlainName decl.name with
    | true => exact fun _ => ⟨[], rfl, .slnil⟩
    | false =>
      rw [isPlain] at plain
      have composes : Composes (Tours t.scanner member) := Tours.composes
      rw [edges_of_hierarchy] at each ⊢
      have sideways := composes.sideways loaded true
        (fun next above => present next (List.mem_append_left _ above))
        fun next edge => each next (List.mem_append_left _ edge)
      have upward := composes.upward loaded
        (fun next above => present next (List.mem_append_right _ above))
        fun next edge => each next (List.mem_append_right _ edge)
      have here : Tours t.scanner member (do
          let called ← t.memberLevel member.id member.declaring id
          if called then advance else pure ()) [id] := by
        refine tours_level id fun level => ?_
        have silent (called : Bool) (i : Nat) :
            ((if called then advance else pure () : Course Unit).run i).events = [] := by
          cases called <;> rfl
        rw [events_bind_of_silent silent]
        exact memberLevel_begins unfiltered aligned known source grounded plain level
      have whole := here.append (sideways.append upward)
      rw [if_pos rfl, ← List.flatMap_append] at whole
      simp only [bind_assoc, advance_if_bind] at whole
      simp only [known, ask_ok, notPrivate, Bool.false_eq_true, ↓reduceIte, List.map_cons,
        Scanner.ends_of_turns]
      exact whole

end

end

end Terrain

namespace Scan

variable {σ ο : Type}

/-- What a walk for a member shows belongs to the types that it visits, none of them twice. On each it
    shows a member once at most, a bridge twice, and only what the type offers. -/
theorem member_walk_shows_once_per_type (s : Scan σ ο) (history : List Operation)
    {member : MemberDecl} (unfiltered : ∀ id, s.rejects id = false) (built : s.scanner.catalog.Built)
    (known : s.scanner.catalog.memberDecl member.id = .ok member)
    (notPrivate : member.isPrivate = false)
    (present : ∀ id, s.scanner.catalog.Reaches TypeDecl.above member.declaring id →
      s.scanner.catalog.isPresent id = true)
    (single : s.scanner.catalog.SinglePaths TypeDecl.above member.declaring) :
    ∃ stages : List (s.scanner.Stage member),
      Event.deliveries (s.logAfter history .hierarchy (.member member.id)) <+:
        stages.flatMap (·.calls) ∧
      (stages.map (·.type)).Nodup ∧
      ∀ stage ∈ stages, s.scanner.catalog.Reaches TypeDecl.above member.declaring stage.type ∧
        s.scanner.catalog.ShownOnce stage.calls ∧
        ∀ call ∈ stage.calls, ∃ d ∈ s.scanner.catalog.members,
          call.source = .member d.id ∧ s.scanner.catalog.Offers member stage.type d := by
  have grounded : s.scanner.catalog.Grounded TypeDecl.above member.declaring :=
    ⟨present, single.acyclicFrom⟩
  have enough : s.scanner.catalog.rank TypeDecl.above member.declaring ≤ s.depth :=
    Catalog.rank_le_typeCount.trans s.typeCount_le_depth
  have aligned := built.aligned
  have course : s.terrain.course s.depth .hierarchy (.member member.id) =
      s.terrain.memberFrom true member.id s.depth member.declaring := by
    show s.terrain.memberUpward true s.depth member.id = _
    have known : s.terrain.scanner.catalog.memberDecl member.id = .ok member := known
    rw [Terrain.memberUpward, known]
  have tours : Course.Tours s.scanner member
      (s.terrain.memberFrom true member.id s.depth member.declaring)
      ((s.scanner.ways ⟨true, false⟩ s.depth member.declaring).map Prod.snd) :=
    Terrain.memberFrom_tours (t := s.terrain) unfiltered aligned known grounded.here notPrivate
      grounded enough
  obtain ⟨stages, shown, visited⟩ := tours 0
  refine ⟨stages, ?_, visited.nodup (Scanner.ends_nodup single grounded enough), ?_⟩
  · rw [← shown, ← course]
    exact (s.logAfter_prefix history .hierarchy _).filterMap Event.delivery?
  · intro stage listed
    obtain ⟨⟨turns, last⟩, way, same⟩ :=
      List.mem_map.mp (visited.subset (List.mem_map_of_mem listed))
    have path := Scanner.path_of_way
      ((Scanner.mem_ways edges_subset_above grounded enough turns last).mp way)
    have reached : s.scanner.catalog.Reaches TypeDecl.above member.declaring stage.type :=
      same ▸ path.reaches
    have there := grounded.reached reached
    exact ⟨reached, stage.shownOnce aligned known there,
      fun call made => stage.offered aligned known there made⟩

def layered : Scan (List Level) (List Level) where
  scanner := ⟨.ofDecls [Catalog.rootDecl,
    ⟨⟨1⟩, "mark.Seen", .recordKind, [], none, [], none, false, true⟩,
    ⟨⟨2⟩, "shape.Top", .interface, [], none, [], none, false, true⟩,
    ⟨⟨3⟩, "shape.Middle", .interface, [], none, [⟨⟨2⟩, []⟩], none, false, true⟩,
    ⟨⟨4⟩, "shape.Low", .classType, [], some ⟨⟨0⟩, []⟩, [⟨⟨3⟩, []⟩], none, false, true⟩]
    [⟨⟨0⟩, "save", ⟨2⟩, .everyone, [], .void, none, none⟩,
    ⟨⟨1⟩, "save", ⟨4⟩, .everyone, [], .void, none, none⟩]
    [(.member ⟨0⟩, .ofKind ⟨1⟩)], {}⟩
  visitor := .levels
  rejects _ := false

theorem layered_built : layered.scanner.catalog.Built := by
  have kinds := Catalog.Built.initial.define { name := "mark.Seen", flavor := .recordKind }
  have types := ((kinds.define { name := "shape.Top", flavor := .interface }).define
    { name := "shape.Middle", flavor := .interface, interfaces := [⟨⟨2⟩, []⟩] }).define
    { name := "shape.Low", flavor := .classType, interfaces := [⟨⟨3⟩, []⟩] }
  have onTop := types.addMember ⟨2⟩ { name := "save", records := [.ofKind ⟨1⟩] } rfl
  exact onTop.addMember ⟨4⟩ { name := "save" } rfl

theorem layered_descends : layered.scanner.catalog.Descends TypeDecl.above TypeId.index := by
  decide

theorem layered_grounded : layered.scanner.catalog.Grounded TypeDecl.above ⟨4⟩ :=
  layered_descends.grounded rfl

theorem layered_single : layered.scanner.catalog.SinglePaths TypeDecl.above ⟨4⟩ :=
  Catalog.singlePaths_of_climb layered_grounded (by decide)

theorem layered_shows_once_per_type :
    ∃ stages : List (layered.scanner.Stage ⟨⟨1⟩, "save", ⟨4⟩, .everyone, [], .void, none, none⟩),
      Event.deliveries (layered.logAfter [.clear] .hierarchy (.member ⟨1⟩)) <+:
        stages.flatMap (·.calls) ∧
      (stages.map (·.type)).Nodup ∧
      ∀ stage ∈ stages, layered.scanner.catalog.Reaches TypeDecl.above ⟨4⟩ stage.type ∧
        layered.scanner.catalog.ShownOnce stage.calls ∧
        ∀ call ∈ stage.calls, ∃ d ∈ layered.scanner.catalog.members,
          call.source = .member d.id ∧ layered.scanner.catalog.Offers
            ⟨⟨1⟩, "save", ⟨4⟩, .everyone, [], .void, none, none⟩ stage.type d :=
  member_walk_shows_once_per_type layered [.clear] (fun _ => rfl) layered_built rfl rfl
    layered_grounded.present layered_single

/-- The member of the interface on top is shown on that interface and on the one below it. -/
theorem layered_shows_twice :
    layered.scanner.catalog.Built ∧
      layered.scanner.catalog.memberDecl ⟨1⟩ =
        .ok ⟨⟨1⟩, "save", ⟨4⟩, .everyone, [], .void, none, none⟩ ∧
      (∀ id, layered.scanner.catalog.Reaches TypeDecl.above ⟨4⟩ id →
        layered.scanner.catalog.isPresent id = true) ∧
      layered.scanner.catalog.SinglePaths TypeDecl.above ⟨4⟩ ∧
      (∀ id, layered.rejects id = false) ∧
      ¬layered.scanner.catalog.ShownOnce
        (Event.deliveries (layered.logAfter [] .hierarchy (.member ⟨1⟩))) := by
  refine ⟨layered_built, rfl, layered_grounded.present, layered_single, fun _ => rfl, fun once => ?_⟩
  have searchable :
      layered.scanner.Searchable ⟨⟨1⟩, "save", ⟨4⟩, .everyone, [], .void, none, none⟩ :=
    Scanner.searchable_of_checks layered_built rfl rfl layered_descends rfl (by decide) (by decide)
  have traces := Terrain.memberFrom_traces (t := layered.terrain) (fun _ => rfl) searchable .refl
    (.inl rfl) (Catalog.rank_le_typeCount.trans layered.typeCount_le_depth)
  have shown : layered.terrain.events layered.depth .hierarchy (.member ⟨1⟩) = _ :=
    congrArg Passage.events (traces 0)
  have sources : (Event.deliveries (layered.terrain.events layered.depth .hierarchy
      (.member ⟨1⟩))).map (·.source) = [.member ⟨1⟩, .member ⟨0⟩, .member ⟨0⟩] := by
    rw [shown]
    rfl
  have few := once ⟨⟨0⟩, "save", ⟨2⟩, .everyone, [], .void, none, none⟩ List.mem_cons_self
  rw [layered.logAfter_of_patient [] .hierarchy _ Visitor.levels_patient, sources] at few
  exact absurd few (by decide)

end Scan

end Lineage
