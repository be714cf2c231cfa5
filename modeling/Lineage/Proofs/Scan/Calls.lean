import Lineage.Proofs.Catalog.Built
import Lineage.Proofs.Scan.Depth
import Lineage.Proofs.Scan.Deliveries

namespace Lineage

/-- No chain of types that are crossed one after the other is longer than the fuel for its first. -/
theorem Catalog.Lasts.length_le {c : Catalog} {fuel : Nat} {id : TypeId} {rest : List TypeId}
    (acyclic : c.Acyclic) (lasts : c.Lasts fuel id) (chain : (id :: rest).IsChain c.Crosses) :
    (id :: rest).length ≤ fuel := by
  induction rest generalizing id fuel with
  | nil => exact lasts.some
  | cons next rest ih =>
    cases fuel with
    | zero => exact absurd lasts.some (Nat.lt_irrefl 0)
    | succ fuel =>
      obtain ⟨crosses, chain⟩ := List.isChain_cons_cons.mp chain
      exact Nat.succ_le_succ (ih (lasts.next acyclic crosses) chain)

/-- What a walk calls itself for: a type in the walk of a type, a type in the walk of a member, or
    the next round of an inherited walk. -/
inductive Call where
  | type (reach : Scan.Reach) (id : TypeId)
  | member (interfaces : Bool) (member : MemberId) (id : TypeId)
  | inherited (source id : TypeId) (index : Nat) (claims : Option Scan.Claims)

def Call.id : Call → TypeId
  | .type _ id | .member _ _ id | .inherited _ id _ _ => id

namespace Walk

variable {σ ο α β : Type}

theorem ask_bind_congr {answer : Except QueryError α} {next later : α → Walk σ ο β}
    (same : ∀ a, answer = .ok a → next a = later a) : ask answer >>= next = ask answer >>= later := by
  cases answer with
  | error e => rfl
  | ok a => exact same a rfl

theorem forM_congr {as : List α} {walk other : α → Walk σ ο Unit}
    (each : ∀ a ∈ as, walk a = other a) : as.forM walk = as.forM other := by
  induction as with
  | nil => rfl
  | cons a rest ih =>
    have later := ih fun b member => each b (List.mem_cons_of_mem a member)
    show walk a >>= (fun _ => rest.forM walk) = other a >>= fun _ => rest.forM other
    rw [each a List.mem_cons_self, later]

end Walk

namespace Scan

open Walk

variable {σ ο : Type} (s : Scan σ ο)

/-- What a call does itself, with the calls nested in it left to `nested`. -/
def perform (nested : Call → Walk σ ο Unit) : Call → Walk σ ο Unit
  | .type reach id =>
    contain (.type id) do
      s.enter (← index)
      let plain ← ask (s.scanner.isPlainType id)
      unless plain do
        let slots ← s.declared (.type id)
        s.deliver (← index) (.type id) slots
        advance
        if reach.interfaces then
          let interfaces ← ask (s.scanner.catalog.interfaces id)
          interfaces.forM fun above => nested (.type reach above)
        if let some above ← s.properSuperclass id then nested (.type reach above)
        if reach.enclosing then
          match s.scanner.catalog.enclosing id with
          | .ok (some outer) => nested (.type reach outer)
          | .ok none => pure ()
          | .error e => report (.type id) e
  | .member interfaces member id =>
    contain (.member member) do
      s.enter (← index)
      let plain ← ask (s.scanner.isPlainType id)
      unless plain do
        let decl ← ask (s.scanner.catalog.memberDecl member)
        let called ← s.memberLevel member decl.declaring id
        unless decl.isPrivate do
          if called then advance
          if interfaces then
            let above ← ask (s.scanner.catalog.interfaces id)
            above.forM fun above => nested (.member interfaces member above)
          if let some above ← s.properSuperclass id then nested (.member interfaces member above)
  | .inherited source id index claims =>
    contain (.type id) do
      unless id = Catalog.root || claims.any (·.remaining = 0) do
        let plain ← ask (s.scanner.isPlainType id)
        unless plain do
          s.enter index
          let claims ← s.inheritedLevel source id index claims
          match ← ask (s.scanner.catalog.superclass id) with
          | some above => nested (.inherited source above (index + 1) claims)
          | none => pure ()

def within (fuel : Nat) : Call → Walk σ ο Unit
  | .type reach id => s.typeFrom reach fuel id
  | .member interfaces member id => s.memberFrom interfaces member fuel id
  | .inherited source id index claims => s.inheritedFrom source fuel id index claims

/-- Calls nested up to a depth; `deeper` stands for those below it. -/
def truncated (deeper : Call → Walk σ ο Unit) : Nat → Call → Walk σ ο Unit
  | 0 => deeper
  | depth + 1 => s.perform (truncated deeper depth)

theorem within_succ (fuel : Nat) : s.within (fuel + 1) = s.perform (s.within fuel) := by
  funext call
  cases call <;> rfl

theorem within_eq_truncated (fuel : Nat) : s.within fuel = s.truncated (fun _ => pure ()) fuel := by
  induction fuel with
  | zero =>
    funext call
    cases call <;> rfl
  | succ fuel ih => rw [within_succ, ih, truncated]

section

variable {s} {id : TypeId} {walk other : TypeId → Walk σ ο Unit} {rest after : Walk σ ο Unit}

theorem sideways_congr
    (each : ∀ next, s.scanner.catalog.Crosses id next → walk next = other next)
    (later : rest = after) (interfaces : Bool) :
    (if interfaces = true then
      ask (s.scanner.catalog.interfaces id) >>= fun above => above.forM walk >>= fun _ => rest
    else rest) =
      if interfaces = true then
        ask (s.scanner.catalog.interfaces id) >>= fun above => above.forM other >>= fun _ => after
      else after := by
  refine ite_congr rfl (fun _ => ask_bind_congr fun above known => ?_) fun _ => later
  have same := forM_congr fun next member => each next (Catalog.crosses_of_interfaces known member)
  rw [same, later]

theorem upward_congr {arrive depart : Option TypeId → Walk σ ο Unit}
    (ends : arrive none = depart none)
    (goes : ∀ next, s.scanner.catalog.Crosses id next → arrive (some next) = depart (some next)) :
    s.properSuperclass id >>= arrive = s.properSuperclass id >>= depart := by
  unfold properSuperclass
  rw [bind_assoc, bind_assoc]
  refine ask_bind_congr fun above known => ?_
  rw [pure_bind, pure_bind]
  cases proper : above.filter (· != Catalog.root) with
  | none => exact ends
  | some next =>
    obtain ⟨rfl, _⟩ := Option.filter_eq_some_iff.mp proper
    exact goes next (Catalog.crosses_of_superclass known)

theorem outward_congr (each : ∀ next, s.scanner.catalog.Crosses id next → walk next = other next)
    (enclosing : Bool) :
    (if enclosing = true then
      match s.scanner.catalog.enclosing id with
      | .ok (some outer) => walk outer
      | .ok none => pure ()
      | .error e => report (.type id) e
    else pure ()) =
      if enclosing = true then
        match s.scanner.catalog.enclosing id with
        | .ok (some outer) => other outer
        | .ok none => pure ()
        | .error e => report (.type id) e
      else pure () := by
  refine ite_congr rfl (fun _ => ?_) fun _ => rfl
  rcases known : s.scanner.catalog.enclosing id with e | _ | outer
  · rfl
  · rfl
  · exact each outer (Catalog.crosses_of_enclosing known)

end

variable {s} {walk other : Call → Walk σ ο Unit}

/-- A call depends only on calls at types that it can cross to. -/
theorem perform_congr {call : Call}
    (same : ∀ nested : Call, s.scanner.catalog.Crosses call.id nested.id → walk nested = other nested) :
    s.perform walk call = s.perform other call := by
  cases call with
  | type reach id =>
    have each (next : TypeId) (crosses : s.scanner.catalog.Crosses id next) :=
      same (.type reach next) crosses
    have outward := outward_congr each reach.enclosing
    refine congrArg (contain _) <| bind_congr fun _ => bind_congr fun _ => bind_congr fun _ =>
      ite_congr rfl (fun _ => rfl) fun _ => bind_congr fun _ => bind_congr fun _ =>
      bind_congr fun _ => bind_congr fun _ => ?_
    refine sideways_congr each (upward_congr outward fun next crosses => ?_) reach.interfaces
    exact congrArg₂ Bind.bind (each next crosses) (funext fun _ => outward)
  | member interfaces member id =>
    have each (next : TypeId) (crosses : s.scanner.catalog.Crosses id next) :=
      same (.member interfaces member next) crosses
    refine congrArg (contain _) <| bind_congr fun _ => bind_congr fun _ => bind_congr fun _ =>
      ite_congr rfl (fun _ => rfl) fun _ => bind_congr fun _ => bind_congr fun called =>
      ite_congr rfl (fun _ => rfl) fun _ => ?_
    cases called
    case' true => refine bind_congr fun _ => ?_
    all_goals
      refine sideways_congr each (upward_congr ?_ each) interfaces
      rfl
  | inherited source id index claims =>
    refine congrArg (contain _) <| ite_congr rfl (fun _ => rfl) fun _ => bind_congr fun _ =>
      ite_congr rfl (fun _ => rfl) fun _ => bind_congr fun _ => bind_congr fun left =>
      ask_bind_congr fun above known => ?_
    cases above with
    | none => rfl
    | some next =>
      exact same (.inherited source next (index + 1) left) (Catalog.crosses_of_superclass known)

section

variable {fuel more : Nat} (acyclic : s.scanner.catalog.Acyclic)
include acyclic

theorem truncated_settled {call : Call} (lasts : s.scanner.catalog.Lasts fuel call.id)
    (lastsMore : s.scanner.catalog.Lasts more call.id) :
    s.truncated walk fuel call = s.truncated other more call := by
  -- the fuel goes down with the rank of the type that a call is at
  induction fuel generalizing more call with
  | zero => exact absurd lasts.some (Nat.lt_irrefl 0)
  | succ fuel ih =>
    cases more with
    | zero => exact absurd lastsMore.some (Nat.lt_irrefl 0)
    | succ more =>
      exact perform_congr fun nested crosses =>
        ih (lasts.next acyclic crosses) (lastsMore.next acyclic crosses)

variable (some : 0 < s.scanner.catalog.typeCount)
include some

theorem truncated_eq (enough : s.scanner.catalog.typeCount ≤ fuel)
    (enoughMore : s.scanner.catalog.typeCount ≤ more) : s.truncated walk fuel = s.truncated other more :=
  funext fun call => truncated_settled acyclic (Catalog.lasts_of_typeCount some enough call.id)
    (Catalog.lasts_of_typeCount some enoughMore call.id)

/-- The calls that call each other without fuel are those with enough of it. -/
theorem perform_eq_self_iff (enough : s.scanner.catalog.typeCount ≤ fuel) :
    s.perform walk = walk ↔ walk = s.within fuel := by
  constructor
  · intro solved
    have unfolded (depth : Nat) : s.truncated walk depth = walk := by
      induction depth with
      | zero => rfl
      | succ depth ih => rw [truncated, ih, solved]
    rw [within_eq_truncated, ← truncated_eq acyclic some enough enough, unfolded]
  · rintro rfl
    have further : s.scanner.catalog.typeCount ≤ fuel + 1 := enough.trans (Nat.le_succ fuel)
    rw [← within_succ, within_eq_truncated, within_eq_truncated]
    exact truncated_eq acyclic some further enough

end

variable (s) in
def walkBy (walk : Call → Walk σ ο Unit) (strategy : Strategy) : Element → Walk σ ο Unit
  | .type id =>
    match strategy with
    | .direct => s.element (.type id)
    | .inherited =>
      contain (.type id) do
        let alone ← ask (s.scanner.catalog.isWithoutHierarchy .inherited (.type id))
        if alone then s.element (.type id) else walk (.inherited id id 0 none)
    | .superclass => walk (.type ⟨false, false⟩ id)
    | .hierarchy => walk (.type ⟨true, false⟩ id)
    | .enclosing => walk (.type ⟨true, true⟩ id)
  | .member id =>
    let upward (interfaces : Bool) : Walk σ ο Unit :=
      match s.scanner.catalog.memberDecl id with
      | .ok decl => walk (.member interfaces id decl.declaring)
      | .error e => report (.member id) e
    match strategy with
    | .direct | .inherited => s.memberAlone id
    | .superclass => upward false
    | .hierarchy | .enclosing => upward true
  | .parameter owner index => s.element (.parameter owner index)

variable (s) in
theorem walk_eq_walkBy (fuel : Nat) (strategy : Strategy) (source : Element) :
    s.walk fuel strategy source = s.walkBy (s.within fuel) strategy source := by
  cases source <;> cases strategy <;> rfl

/-- No more calls than `depth` are nested in each other on any scan. -/
structure NestsWithin (s : Scan σ ο) (depth : Nat) : Prop where
  /-- A call makes calls only at types that it crosses to. -/
  crosses : ∀ (walk other : Call → Walk σ ο Unit) (call : Call),
    (∀ nested : Call, s.scanner.catalog.Crosses call.id nested.id → walk nested = other nested) →
      s.perform walk call = s.perform other call
  chains : ∀ ids : List TypeId, ids.IsChain s.scanner.catalog.Crosses → ids.length ≤ depth
  /-- Whatever stands for the calls below the depth is never reached. -/
  unreached : ∀ fuel, depth ≤ fuel → ∀ deeper strategy source,
    s.walkBy (s.truncated deeper fuel) strategy source = s.walk depth strategy source
  /-- The calls end by themselves: without fuel they can only be those that have it. -/
  ends : ∀ walk, s.perform walk = walk ↔ walk = s.within depth
  /-- The superclasses of a type are listed to their end. -/
  superclasses : ∀ fuel, depth ≤ fuel → ∀ id,
    s.scanner.catalog.ancestorsWithin fuel id = s.scanner.catalog.ancestors id
  settled : ∀ fuel, depth ≤ fuel → ∀ strategy source memo,
    s.runWithin fuel strategy source memo = s.run strategy source memo

/-- Where links of all sorts together form no cycle, no more calls are nested than there are types. -/
theorem nests_within_typeCount (s : Scan σ ο) (acyclic : s.scanner.catalog.Acyclic)
    (some : 0 < s.scanner.catalog.typeCount) : s.NestsWithin s.scanner.catalog.typeCount where
  crosses _ _ _ same := perform_congr same
  chains ids chain := by
    cases ids with
    | nil => exact Nat.zero_le _
    | cons id rest => exact (Catalog.lasts_of_typeCount some le_rfl id).length_le acyclic chain
  unreached fuel enough deeper strategy source := by
    rw [walk_eq_walkBy, within_eq_truncated, truncated_eq acyclic some enough le_rfl]
  ends _ := perform_eq_self_iff acyclic some le_rfl
  superclasses fuel enough id :=
    Catalog.ancestorsWithin_settled acyclic (Catalog.lasts_of_typeCount some enough id)
      (Catalog.lasts_of_typeCount some le_rfl id)
  settled fuel enough strategy source memo := by
    have walks : s.walk fuel strategy source = s.walk s.depth strategy source := by
      rw [walk_eq_walkBy, walk_eq_walkBy, within_eq_truncated, within_eq_truncated,
        truncated_eq acyclic some enough s.typeCount_le_depth]
    rw [runWithin, walks]
    rfl

def annex : Scan (List Level) (List Level) where
  scanner := ⟨.ofDecls [Catalog.rootDecl,
    ⟨⟨1⟩, "shape.Top", .interface, [], none, [], none, false, true⟩,
    ⟨⟨2⟩, "shape.Side", .interface, [], none, [⟨⟨1⟩, []⟩], none, false, true⟩,
    ⟨⟨3⟩, "shape.Outer", .classType, [], some ⟨⟨0⟩, []⟩, [⟨⟨2⟩, []⟩], none, false, true⟩,
    ⟨⟨4⟩, "shape.Base", .classType, [], some ⟨⟨0⟩, []⟩, [], none, false, true⟩,
    ⟨⟨5⟩, "shape.Inner", .classType, [], some ⟨⟨4⟩, []⟩, [⟨⟨1⟩, []⟩], some ⟨3⟩, false, true⟩]
    [] [], {}⟩
  visitor := .levels
  rejects _ := false

theorem annex_nests :
    annex.scanner.catalog.Acyclic ∧ annex.scanner.catalog.typeCount = 6 ∧ annex.NestsWithin 6 := by
  have falls : annex.scanner.catalog.Falls TypeDecl.links TypeId.index := by decide
  exact ⟨falls.acyclic, rfl, nests_within_typeCount annex falls.acyclic (by decide)⟩

example :
    let happened (fuel : Nat) := (annex.runWithin fuel .enclosing (.type ⟨5⟩) .empty).log.length
    happened 3 < happened 4 ∧ happened 4 = happened 6 := by decide +kernel

end Scan

end Lineage
