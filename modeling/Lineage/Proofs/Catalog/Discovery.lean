import Lineage.Proofs.Catalog.Aligned
import Lineage.Proofs.Catalog.Reach

namespace Lineage.Catalog

open Relation

variable {c : Catalog} {id t : TypeId} {seen other todo rest types : List TypeId}

/-- What a depth-first walk meets that goes through some types, after it has seen others: a type
    that it has seen is passed over, and a type that it has not is followed by what is met above it
    before the walk goes on. -/
inductive Discovers (c : Catalog) : List TypeId → List TypeId → List TypeId → Prop
  | done {seen : List TypeId} : Discovers c seen [] []
  | skip {id : TypeId} {seen todo types : List TypeId} : id ∈ seen → Discovers c seen todo types →
    Discovers c seen (id :: todo) types
  | enter {id : TypeId} {decl : TypeDecl} {seen todo above types : List TypeId} : id ∉ seen →
    c.type? id = some decl → Discovers c (id :: seen) decl.above above →
    Discovers c (above ++ id :: seen) todo types → Discovers c seen (id :: todo) (id :: above ++ types)

namespace Discovers

theorem congr (walk : c.Discovers seen todo types) (same : ∀ t, t ∈ seen ↔ t ∈ other) :
    c.Discovers other todo types := by
  induction walk generalizing other with
  | done => exact .done
  | skip known _ ih => exact .skip ((same _).mp known) (ih same)
  | @enter id _ seen _ above _ new found _ _ ihAbove ih =>
    have marked (t : TypeId) : t ∈ id :: seen ↔ t ∈ id :: other := by
      rw [List.mem_cons, List.mem_cons, same]
    refine .enter (fun known => new ((same id).mpr known)) found (ihAbove marked) (ih fun t => ?_)
    rw [List.mem_append, List.mem_append, marked]

/-- A walk through some types and then others is one walk after the other. -/
theorem split (walk : c.Discovers seen (todo ++ rest) types) :
    ∃ first later, types = first ++ later ∧ c.Discovers seen todo first ∧
      c.Discovers (first ++ seen) rest later := by
  generalize whole : todo ++ rest = all at walk
  induction walk generalizing todo with
  | done =>
    obtain ⟨rfl, rfl⟩ := List.append_eq_nil_iff.mp whole
    exact ⟨[], [], rfl, .done, .done⟩
  | @skip id seen others types known walk ih =>
    cases todo with
    | nil =>
      subst whole
      exact ⟨[], types, rfl, .done, .skip known walk⟩
    | cons head todo =>
      cases whole
      obtain ⟨first, later, rfl, before, after⟩ := ih rfl
      exact ⟨first, later, rfl, .skip known before, after⟩
  | @enter id decl seen others above types new found inner walk _ ih =>
    cases todo with
    | nil =>
      subst whole
      exact ⟨[], _, rfl, .done, .enter new found inner walk⟩
    | cons head todo =>
      cases whole
      obtain ⟨first, later, rfl, before, after⟩ := ih rfl
      refine ⟨id :: above ++ first, later, (List.append_assoc ..).symm,
        .enter new found inner before, after.congr fun t => ?_⟩
      simp only [List.mem_append, List.mem_cons]
      tauto

theorem nodup (walk : c.Discovers seen todo types) :
    types.Nodup ∧ ∀ t ∈ types, t ∉ seen := by
  induction walk with
  | done => exact ⟨.nil, nofun⟩
  | skip _ _ ih => exact ih
  | @enter id _ seen _ above types new _ _ _ ihAbove ih =>
    obtain ⟨onceAbove, freshAbove⟩ := ihAbove
    obtain ⟨once, fresh⟩ := ih
    constructor
    · refine List.nodup_append.mpr ⟨List.nodup_cons.mpr ⟨fun again => ?_, onceAbove⟩, once, ?_⟩
      · exact freshAbove id again List.mem_cons_self
      · rintro t earlier _ later rfl
        refine fresh t later (List.mem_append.mpr ?_)
        rcases List.mem_cons.mp earlier with rfl | earlier
        · exact .inr List.mem_cons_self
        · exact .inl earlier
    · intro t listed known
      have marked : t ∈ id :: seen := List.mem_cons_of_mem _ known
      rcases List.mem_append.mp listed with earlier | later
      · rcases List.mem_cons.mp earlier with rfl | earlier
        · exact new known
        · exact freshAbove t earlier marked
      · exact fresh t later (List.mem_append_right _ marked)

theorem reached (walk : c.Discovers seen todo types) :
    ∀ t ∈ types, ∃ a ∈ todo, c.Reaches TypeDecl.above a t := by
  induction walk with
  | done => nofun
  | skip _ _ ih =>
    intro t listed
    obtain ⟨a, waits, path⟩ := ih t listed
    exact ⟨a, List.mem_cons_of_mem _ waits, path⟩
  | @enter id decl _ _ _ _ _ found _ _ ihAbove ih =>
    intro t listed
    rcases List.mem_append.mp listed with earlier | later
    · refine ⟨id, List.mem_cons_self, ?_⟩
      rcases List.mem_cons.mp earlier with rfl | earlier
      · exact .refl
      · obtain ⟨a, up, path⟩ := ihAbove t earlier
        exact path.head ⟨decl, found, up⟩
    · obtain ⟨a, waits, path⟩ := ih t later
      exact ⟨a, List.mem_cons_of_mem _ waits, path⟩

/-- After a walk, what it went through is seen, and so is what is above the types it met. -/
theorem closed (walk : c.Discovers seen todo types) :
    (∀ a ∈ todo, a ∈ types ++ seen) ∧
      ∀ a ∈ types, ∀ b, c.Leads TypeDecl.above a b → b ∈ types ++ seen := by
  induction walk with
  | done => exact ⟨nofun, nofun⟩
  | skip known _ ih =>
    refine ⟨fun a waits => ?_, ih.2⟩
    rcases List.mem_cons.mp waits with rfl | waits
    · exact List.mem_append_right _ known
    · exact ih.1 a waits
  | @enter id decl seen todo above types _ found _ _ ihAbove ih =>
    obtain ⟨throughAbove, ontoAbove⟩ := ihAbove
    obtain ⟨through, onto⟩ := ih
    have early {t : TypeId} (there : t ∈ above ++ id :: seen) : t ∈ id :: above ++ types ++ seen := by
      simp only [List.mem_append, List.mem_cons] at there ⊢
      tauto
    have late {t : TypeId} (there : t ∈ types ++ (above ++ id :: seen)) :
        t ∈ id :: above ++ types ++ seen := by
      simp only [List.mem_append, List.mem_cons] at there ⊢
      tauto
    constructor
    · intro a waits
      rcases List.mem_cons.mp waits with rfl | waits
      · exact List.mem_append_left _ List.mem_cons_self
      · exact late (through a waits)
    · intro a listed b leads
      rcases List.mem_append.mp listed with earlier | later
      · rcases List.mem_cons.mp earlier with rfl | earlier
        · obtain ⟨same, foundToo, up⟩ := leads
          rw [found] at foundToo
          cases foundToo
          exact early (throughAbove b up)
        · exact early (ontoAbove a earlier b leads)
      · exact late (onto a later b leads)

theorem mem_iff (walk : c.Discovers [] [id] types) : t ∈ types ↔ c.Reaches TypeDecl.above id t := by
  constructor
  · intro listed
    obtain ⟨a, start, path⟩ := walk.reached t listed
    rw [List.mem_singleton.mp start] at path
    exact path
  · intro path
    have closed := walk.closed
    rw [List.append_nil] at closed
    induction path with
    | refl => exact closed.1 id List.mem_cons_self
    | tail _ leads ih => exact closed.2 _ ih _ leads

end Discovers

/-- What a search finds is what the walk meets, and all of it is present. -/
theorem discovers_of_reachFrom (found : c.reachFrom seen todo = .ok types) :
    c.Discovers seen todo types ∧ ∀ t ∈ types, c.isPresent t = true := by
  induction seen, todo using reachFrom.induct c generalizing types with
  | case1 seen =>
    rw [reachFrom] at found
    cases found
    exact ⟨.done, List.forall_mem_nil _⟩
  | case2 seen id todo known ih =>
    rw [reachFrom_seen known] at found
    obtain ⟨walk, present⟩ := ih found
    exact ⟨.skip known walk, present⟩
  | case3 seen id todo new e failed =>
    rw [reachFrom_new new, failed] at found
    cases found
  | case4 seen id todo new decl loaded lower ih =>
    rw [reachFrom_loaded new loaded] at found
    obtain ⟨further, onward, rfl⟩ := map_ok found
    obtain ⟨stored, here⟩ := present_of_load loaded
    obtain ⟨walk, present⟩ := ih onward
    -- the search keeps all that waits in one list, the walk comes back to what waited before
    obtain ⟨above, later, rfl, inner, walk⟩ := walk.split
    exact ⟨.enter new stored inner walk, List.forall_mem_cons.mpr ⟨here, present⟩⟩

theorem reachFrom_answers
    (present : ∀ a ∈ todo, ∀ t, c.Reaches TypeDecl.above a t → c.isPresent t = true) :
    ∃ types, c.reachFrom seen todo = .ok types := by
  induction seen, todo using reachFrom.induct c with
  | case1 seen => exact ⟨[], by rw [reachFrom]⟩
  | case2 seen id todo known ih =>
    rw [reachFrom_seen known]
    exact ih fun a waits => present a (List.mem_cons_of_mem _ waits)
  | case3 seen id todo new e failed =>
    obtain ⟨decl, _, loaded⟩ := load_of_present (present id List.mem_cons_self id .refl)
    rw [loaded] at failed
    cases failed
  | case4 seen id todo new decl loaded lower ih =>
    rw [reachFrom_loaded new loaded]
    obtain ⟨types, found⟩ : ∃ types, c.reachFrom (id :: seen) (decl.above ++ todo) = .ok types :=
      ih fun a waits t path => by
      rcases List.mem_append.mp waits with up | waits
      · have leads : c.Leads TypeDecl.above id a := ⟨decl, (present_of_load loaded).1, up⟩
        exact present id List.mem_cons_self t (path.head leads)
      · exact present a (List.mem_cons_of_mem _ waits) t path
    exact ⟨id :: types, by rw [found]; rfl⟩

/-- The public members of a type and of all that is above it, in the order in which a depth-first
    walk meets their types, each of them once. Links may form cycles; but all that is above the type
    must be present. -/
theorem publicMembers_discovered (built : c.Built) (id : TypeId) :
    ((∃ members, c.publicMembers id = .ok members) ↔
      ∀ t, c.Reaches TypeDecl.above id t → c.isPresent t = true) ∧
    ∀ members, c.publicMembers id = .ok members →
      (∃ types, c.Discovers [] [id] types ∧ types.Nodup ∧
        (∀ t, t ∈ types ↔ c.Reaches TypeDecl.above id t) ∧
        members = types.flatMap fun t =>
          ((c.membersOf t).filter (·.visibility = .everyone)).map (·.id)) ∧
      members.Nodup ∧
      ∀ m, m ∈ members ↔ ∃ decl, c.member? m = some decl ∧ decl.visibility = .everyone ∧
        c.Reaches TypeDecl.above id decl.declaring := by
  have aligned := built.aligned
  have numbered := aligned.numbered
  refine ⟨⟨fun ⟨members, asked⟩ => ?_, fun present => ?_⟩, fun members asked => ?_⟩
  · obtain ⟨types, found, _⟩ := bind_ok asked
    obtain ⟨walk, present⟩ := discovers_of_reachFrom found
    exact fun t path => present t (walk.mem_iff.mpr path)
  · obtain ⟨types, found⟩ : ∃ types, c.reachFrom [] [id] = .ok types :=
      reachFrom_answers (List.forall_mem_singleton.mpr present)
    exact ⟨_, by rw [publicMembers, found]; rfl⟩
  · obtain ⟨types, found, same⟩ := bind_ok asked
    obtain ⟨walk, _⟩ := discovers_of_reachFrom found
    obtain ⟨once, _⟩ := walk.nodup
    cases same
    simp only [aligned.membersWhere]
    refine ⟨⟨types, walk, once, fun t => walk.mem_iff, rfl⟩, ?_, fun m => ?_⟩
    · rw [← List.map_flatMap]
      exact numbered.ids_of_types_nodup once _
    · constructor
      · intro listed
        obtain ⟨t, there, listed⟩ := List.mem_flatMap.mp listed
        obtain ⟨d, shown, rfl⟩ := List.mem_map.mp listed
        obtain ⟨declared, visible⟩ := List.mem_filter.mp shown
        obtain ⟨_, rfl⟩ := numbered.memberDecl declared
        exact ⟨d, numbered.member? declared, of_decide_eq_true visible, walk.mem_iff.mp there⟩
      · rintro ⟨decl, found, visible, path⟩
        have declared : decl ∈ c.membersOf decl.declaring :=
          List.mem_filter.mpr ⟨List.mem_of_getElem? found, decide_eq_true rfl⟩
        rw [← numbered m decl found]
        refine List.mem_flatMap.mpr ⟨_, walk.mem_iff.mpr path, List.mem_map_of_mem ?_⟩
        exact List.mem_filter.mpr ⟨declared, decide_eq_true visible⟩

def tangled : Catalog := .ofDecls
  [rootDecl,
    ⟨⟨1⟩, "First", .interface, [], none, [⟨⟨2⟩, []⟩], none, false, true⟩,
    ⟨⟨2⟩, "Second", .interface, [], none, [⟨⟨1⟩, []⟩], none, false, true⟩,
    ⟨⟨3⟩, "Base", .classType, [], some ⟨root, []⟩, [⟨⟨2⟩, []⟩], none, false, true⟩,
    ⟨⟨4⟩, "Low", .classType, [], some ⟨⟨3⟩, []⟩, [⟨⟨1⟩, []⟩, ⟨⟨2⟩, []⟩], none, false, true⟩]
  [⟨⟨0⟩, "run", ⟨3⟩, .everyone, [], .void, none, none⟩,
    ⟨⟨1⟩, "open", ⟨2⟩, .everyone, [], .void, none, none⟩,
    ⟨⟨2⟩, "hide", ⟨2⟩, .owner, [], .void, none, none⟩,
    ⟨⟨3⟩, "open", ⟨1⟩, .everyone, [], .void, none, none⟩,
    ⟨⟨4⟩, "run", ⟨4⟩, .everyone, [], .void, none, none⟩,
    ⟨⟨5⟩, "shut", ⟨2⟩, .everyone, [], .void, none, none⟩]
  []

theorem tangled_built : tangled.Built := by
  have interfaces := ((Built.initial.define { name := "First", flavor := .interface }).define
    { name := "Second", flavor := .interface, interfaces := [⟨⟨1⟩, []⟩] }).define
    { name := "First", flavor := .interface, interfaces := [⟨⟨2⟩, []⟩] }
  have types := (interfaces.define
    { name := "Base", flavor := .classType, interfaces := [⟨⟨2⟩, []⟩] }).define
    { name := "Low", flavor := .classType, superclass := some ⟨⟨3⟩, []⟩,
      interfaces := [⟨⟨1⟩, []⟩, ⟨⟨2⟩, []⟩] }
  have first := types.addMember ⟨3⟩ { name := "run" } rfl
  have second := first.addMember ⟨2⟩ { name := "open" } rfl
  have third := second.addMember ⟨2⟩ { name := "hide", visibility := .owner } rfl
  have fourth := third.addMember ⟨1⟩ { name := "open" } rfl
  have fifth := fourth.addMember ⟨4⟩ { name := "run" } rfl
  exact fifth.addMember ⟨2⟩ { name := "shut" } rfl

theorem tangled_discovered :
    tangled.Built ∧ (∀ t, tangled.Reaches TypeDecl.above ⟨4⟩ t → tangled.isPresent t = true) ∧
    tangled.publicMembers ⟨4⟩ = .ok [⟨4⟩, ⟨3⟩, ⟨1⟩, ⟨5⟩, ⟨0⟩] ∧
    ∃ types, tangled.Discovers [] [⟨4⟩] types ∧
      (∀ t, t ∈ types ↔ tangled.Reaches TypeDecl.above ⟨4⟩ t) ∧
      [⟨4⟩, ⟨3⟩, ⟨1⟩, ⟨5⟩, ⟨0⟩] = types.flatMap fun t =>
        ((tangled.membersOf t).filter (·.visibility = .everyone)).map (·.id) := by
  have asked : tangled.publicMembers ⟨4⟩ = .ok [⟨4⟩, ⟨3⟩, ⟨1⟩, ⟨5⟩, ⟨0⟩] := by cbv
  obtain ⟨answers, each⟩ := publicMembers_discovered tangled_built ⟨4⟩
  obtain ⟨⟨types, walk, _, all, same⟩, _⟩ := each _ asked
  exact ⟨tangled_built, answers.mp ⟨_, asked⟩, asked, types, walk, all, same⟩

end Lineage.Catalog
