import Lineage.Proofs.Pairing.Queries
import Lineage.Scan.Override

namespace Lineage.Pairing

variable {p : Pairing} {c d : Catalog}

def Binding (p : Pairing) (start owner : TypeId) (x y : String × TypeArg) : Prop :=
  p.var owner x.1 y.1 ∧ p.arg start x.2 y.2

def Visit (p : Pairing) (start : TypeId) (x y : TypeId × Bindings) : Prop :=
  p.type x.1 y.1 ∧ List.Forall₂ (p.Binding start x.1) x.2 y.2

theorem var_eq_iff {owner : TypeId} {a b x y : String} (first : p.var owner a b)
    (second : p.var owner x y) : a = x ↔ b = y :=
  Relator.rel_eq (p.var_unique owner) first second

theorem mem_iff {seen others : List TypeId} {a b : TypeId} (visited : List.Forall₂ p.type seen others)
    (paired : p.type a b) : a ∈ seen ↔ b ∈ others :=
  List.rel_mem p.type_unique paired visited

theorem arg_eq_some_iff {x y : Option TypeId} {a b : TypeId} (related : Option.Rel p.type x y)
    (paired : p.type a b) : x = some a ↔ y = some b := by
  cases related with
  | none => exact ⟨nofun, nofun⟩
  | some same =>
    rw [Option.some_inj, Option.some_inj]
    exact type_eq_iff same paired

theorem arg_cases {owner : TypeId} {x y : TypeArg} (related : p.arg owner x y) :
    (∃ s t, x = .concrete s ∧ y = .concrete t ∧ p.type s t) ∨
      ∃ u v, x = .var u ∧ y = .var v ∧ p.var owner u v := by
  cases x with
  | concrete s =>
    cases y with
    | concrete t => exact .inl ⟨s, t, rfl, rfl, related⟩
    | var v => cases related
  | var u =>
    cases y with
    | concrete t => cases related
    | var v => exact .inr ⟨u, v, rfl, rfl, related⟩

theorem findNamed_binding {start owner : TypeId} {x y : Bindings} {a b : String}
    (related : List.Forall₂ (p.Binding start owner) x y) (paired : p.var owner a b) :
    Option.Rel (p.arg start) (findNamed a x) (findNamed b y) := by
  induction related with
  | nil => exact .none
  | @cons first second _ _ head _ ih =>
    obtain ⟨names, args⟩ := head
    unfold findNamed at ih ⊢
    rw [List.find?_cons, List.find?_cons]
    by_cases same : first.1 = a
    · have there := (var_eq_iff names paired).mp same
      simp only [same, there, decide_true, Option.map_some]
      exact .some args
    · have elsewhere := mt (var_eq_iff names paired).mpr same
      simp only [same, elsewhere, decide_false]
      exact ih

theorem through_related {start owner above : TypeId} {b b' : Bindings} {params params' : List TypeParam}
    {args args' : List TypeArg} (bound : List.Forall₂ (p.Binding start owner) b b')
    (named : List.Forall₂ (p.Param above) params params')
    (given : List.Forall₂ (p.arg owner) args args') :
    List.Forall₂ (p.Binding start above) (b.through params args) (b'.through params' args') := by
  unfold Bindings.through
  induction named generalizing args args' with
  | nil => exact .nil
  | @cons x y xs ys head _ ih =>
    cases given with
    | nil => exact .nil
    | @cons first second rest rest' arg others =>
      have later := ih others
      rw [List.zip_cons_cons, List.zip_cons_cons, List.filterMap_cons, List.filterMap_cons]
      obtain ⟨s, t, rfl, rfl, same⟩ | ⟨u, v, rfl, rfl, named⟩ := arg_cases arg
      · exact .cons ⟨head.name, arg⟩ later
      · obtain ⟨first, second⟩ | ⟨found, other, first, second, related⟩ :=
          rel_cases (findNamed_binding bound named)
        · simp only [first, second, Option.map_none]
          exact later
        · simp only [first, second, Option.map_some]
          exact .cons ⟨head.name, related⟩ later

theorem param?_related {owner : TypeId} {decl other : TypeDecl} {var var' : String}
    (params : List.Forall₂ (p.Param owner) decl.params other.params) (named : p.var owner var var') :
    Option.Rel (fun x y => x.1 = y.1 ∧ p.Param owner x.2 y.2) (decl.param? var)
      (other.param? var') := by
  have position : decl.params.findIdx? (·.name = var) = other.params.findIdx? (·.name = var') := by
    apply findIdx?_eq_of_forall₂ params
    intro x y same
    rw [decide_eq_decide]
    exact var_eq_iff same.name named
  unfold TypeDecl.param?
  rw [position]
  cases other.params.findIdx? (·.name = var') with
  | none => exact .none
  | some index =>
    simp only [Option.bind_eq_bind, Option.bind_some]
    obtain ⟨first, second⟩ | ⟨x, y, first, second, same⟩ := rel_cases (getElem?_related params index)
    · rw [first, second]
      exact .none
    · rw [first, second]
      exact .some ⟨rfl, same⟩

theorem targets_related {owner : TypeId} {refs refs' : List SuperRef}
    (related : List.Forall₂ (p.Ref owner) refs refs') :
    List.Forall₂ p.type (refs.map (·.target)) (refs'.map (·.target)) :=
  List.rel_map (fun _ _ ref => Ref.target ref) related

theorem supertypes_related {owner : TypeId} {decl other : TypeDecl} (related : p.Decl owner decl other) :
    List.Forall₂ (p.Ref owner) decl.supertypes other.supertypes :=
  List.rel_append (toList_related related.superclass) related.interfaces

namespace Fits

variable (fits : p.Fits c d) {a b : TypeId} {m n : MemberId}
include fits

theorem reachFrom {seen seen' todo todo' : List TypeId} (visited : List.Forall₂ p.type seen seen')
    (waiting : List.Forall₂ p.type todo todo') :
    Agree p.error (List.Forall₂ p.type) (c.reachFrom seen todo) (d.reachFrom seen' todo') := by
  induction seen, todo using Catalog.reachFrom.induct c generalizing seen' todo' with
  | case1 seen =>
    cases waiting
    rw [Catalog.reachFrom, Catalog.reachFrom]
    exact .ok .nil
  | case2 seen id todo known ih =>
    cases waiting with
    | cons paired rest =>
      rw [Catalog.reachFrom_seen known, Catalog.reachFrom_seen ((mem_iff visited paired).mp known)]
      exact ih visited rest
  | case3 seen id todo new e failed =>
    cases waiting with
    | cons paired rest =>
      rw [Catalog.reachFrom_new new, Catalog.reachFrom_new (mt (mem_iff visited paired).mpr new)]
      apply (fits.load paired).bind
      intro decl _ loaded _ _
      rw [failed] at loaded
      cases loaded
  | case4 seen id todo new decl loaded lower ih =>
    cases waiting with
    | cons paired rest =>
      rw [Catalog.reachFrom_new new, Catalog.reachFrom_new (mt (mem_iff visited paired).mpr new)]
      apply (fits.load paired).bind
      intro same other loadedToo _ related
      rw [loaded] at loadedToo
      cases loadedToo
      apply (ih (.cons paired visited) _).map fun _ _ => .cons paired
      apply List.rel_append _ rest
      exact List.rel_append (targets_related related.interfaces)
        (targets_related (toList_related related.superclass))

theorem publicMembers (paired : p.type a b) :
    Agree p.error (List.Forall₂ p.member) (c.publicMembers a) (d.publicMembers b) := by
  apply (fits.reachFrom .nil (.cons paired .nil)).bind
  intro types types' _ _ reached
  apply Agree.pure
  apply List.rel_flatMap reached
  intro t u same
  apply fits.membersWhere same
  intro x y related
  rw [related.visibility]

theorem climbsTo {target target' : TypeId} {seen seen' todo todo' : List TypeId}
    (same : p.type target target') (visited : List.Forall₂ p.type seen seen')
    (waiting : List.Forall₂ p.type todo todo') :
    Agree p.error Eq (c.climbsTo target seen todo) (d.climbsTo target' seen' todo') := by
  induction seen, todo using Catalog.climbsTo.induct c target generalizing seen' todo' with
  | case1 seen =>
    cases waiting
    rw [Catalog.climbsTo, Catalog.climbsTo]
    exact .ok rfl
  | case2 seen id todo known ih =>
    cases waiting with
    | cons paired rest =>
      rw [Catalog.climbsTo_seen known, Catalog.climbsTo_seen ((mem_iff visited paired).mp known)]
      exact ih visited rest
  | case3 seen id todo new e failed =>
    cases waiting with
    | cons paired rest =>
      rw [Catalog.climbsTo_new new, Catalog.climbsTo_new (mt (mem_iff visited paired).mpr new)]
      apply (fits.typeDecl paired).bind
      intro decl _ found _ _
      rw [failed] at found
      cases found
  | case4 seen id todo new decl found lower above =>
    rename_i reached
    cases waiting with
    | cons paired rest =>
      rw [Catalog.climbsTo_new new, Catalog.climbsTo_new (mt (mem_iff visited paired).mpr new)]
      apply (fits.typeDecl paired).bind
      intro again other foundToo _ related
      rw [found] at foundToo
      cases foundToo
      have supertypes := targets_related (supertypes_related related)
      rw [if_pos reached, if_pos ((mem_iff supertypes same).mp reached)]
      exact .pure rfl
  | case5 seen id todo new decl found lower above =>
    rename_i notYet ih
    cases waiting with
    | cons paired rest =>
      rw [Catalog.climbsTo_new new, Catalog.climbsTo_new (mt (mem_iff visited paired).mpr new)]
      apply (fits.typeDecl paired).bind
      intro again other foundToo _ related
      rw [found] at foundToo
      cases foundToo
      have supertypes := targets_related (supertypes_related related)
      rw [if_neg notYet, if_neg (mt (mem_iff supertypes same).mpr notYet)]
      exact ih (.cons paired visited) (List.rel_append (List.rel_reverse supertypes) rest)

theorem isAssignable {target target' : TypeId} (same : p.type target target') (paired : p.type a b) :
    Agree p.error Eq (c.isAssignable target a) (d.isAssignable target' b) := by
  have found : (target = a ∨ target = Catalog.root) ↔ (target' = b ∨ target' = Catalog.root) :=
    or_congr (type_eq_iff same paired) (type_eq_iff same fits.root)
  apply Agree.ite found
  · intro _
    exact .ok rfl
  · intro _
    exact fits.climbsTo same .nil (.cons paired .nil)

theorem erasure {var var' : String} (paired : p.type a b) (named : p.var a var var') :
    p.type (c.erasure a var) (d.erasure b var') := by
  unfold Catalog.erasure
  obtain ⟨first, second⟩ | ⟨decl, other, first, second, related⟩ := rel_cases (fits.type paired)
  · rw [first, second]
    exact fits.root
  · rw [first, second]
    simp only [Option.bind_eq_bind, Option.bind_some]
    obtain ⟨none, noneToo⟩ | ⟨x, y, some, someToo, same⟩ :=
      rel_cases (param?_related related.params named)
    · rw [none, noneToo]
      exact fits.root
    · rw [some, someToo]
      simp only [Option.bind_some]
      obtain ⟨unbound, unboundToo⟩ | ⟨s, t, bound, boundToo, paired⟩ := rel_cases same.2.bound
      · rw [unbound, unboundToo]
        exact fits.root
      · rw [bound, boundToo]
        exact paired

theorem eraseArg {x y : TypeArg} (paired : p.type a b) (related : p.arg a x y) :
    p.type (c.eraseArg a x) (d.eraseArg b y) := by
  obtain ⟨s, t, rfl, rfl, same⟩ | ⟨u, v, rfl, rfl, named⟩ := arg_cases related
  · exact same
  · exact fits.erasure paired named

theorem parameterTypes (paired : p.member m n) :
    Agree p.error (List.Forall₂ p.type) (c.parameterTypes m) (d.parameterTypes n) := by
  apply (fits.loadMember paired).bind
  intro decl other _ _ related
  apply Agree.pure
  apply List.rel_map _ related.params
  intro x y same
  exact fits.eraseArg related.declaring same

theorem boundSupertypes {start : TypeId} {decl other : TypeDecl} {x y : Bindings}
    (related : p.Decl a decl other) (bound : List.Forall₂ (p.Binding start a) x y) :
    List.Forall₂ (p.Visit start) (c.boundSupertypes decl x) (d.boundSupertypes other y) := by
  apply List.rel_filterMap _ (supertypes_related related)
  intro ref ref' same
  obtain ⟨first, second⟩ | ⟨above, above', first, second, params⟩ :=
    rel_cases (fits.type same.target)
  · simp only [first, second]
    exact .none
  · simp only [first, second]
    exact .some ⟨same.target, through_related bound params.params same.args⟩

theorem resolveFrom {start declaring declaring' : TypeId} {var var' : String}
    {seen seen' : List TypeId} {todo todo' : List (TypeId × Bindings)}
    (same : p.type declaring declaring') (named : p.var declaring var var')
    (visited : List.Forall₂ p.type seen seen') (waiting : List.Forall₂ (p.Visit start) todo todo') :
    Option.Rel (p.arg start) (c.resolveFrom declaring var seen todo)
      (d.resolveFrom declaring' var' seen' todo') := by
  induction seen, todo using Catalog.resolveFrom.induct c declaring generalizing seen' todo' with
  | case1 seen =>
    cases waiting
    rw [Catalog.resolveFrom, Catalog.resolveFrom]
    exact .none
  | case2 seen b todo =>
    cases waiting with
    | @cons _ y _ rest head _ =>
      obtain ⟨id', b'⟩ := y
      obtain ⟨paired, bound⟩ := head
      obtain rfl := (type_eq_iff same paired).mp rfl
      rw [Catalog.resolveFrom_declaring, Catalog.resolveFrom_declaring]
      obtain ⟨first, second⟩ | ⟨x, y, first, second, related⟩ :=
        rel_cases (findNamed_binding bound named)
      · rw [first, second]
        exact .some (fits.erasure same named)
      · rw [first, second]
        exact .some related
  | case3 seen id b todo other known ih =>
    cases waiting with
    | @cons _ y _ rest head others =>
      obtain ⟨id', b'⟩ := y
      obtain ⟨paired, bound⟩ := head
      have otherToo := mt (type_eq_iff paired same).mpr other
      rw [Catalog.resolveFrom_seen other known,
        Catalog.resolveFrom_seen otherToo ((mem_iff visited paired).mp known)]
      exact ih visited others
  | case4 seen id b todo other new unknown ih =>
    cases waiting with
    | @cons _ y _ rest head others =>
      obtain ⟨id', b'⟩ := y
      obtain ⟨paired, bound⟩ := head
      have otherToo := mt (type_eq_iff paired same).mpr other
      have unknownToo : d.type? id' = none := by
        have stored := fits.type paired
        rw [unknown] at stored
        generalize d.type? id' = second at stored ⊢
        cases stored
        rfl
      rw [Catalog.resolveFrom_unknown other unknown,
        Catalog.resolveFrom_unknown otherToo unknownToo]
      exact ih visited others
  | case5 seen id b todo other new decl found lower ih =>
    cases waiting with
    | @cons _ y _ rest head others =>
      obtain ⟨id', b'⟩ := y
      obtain ⟨paired, bound⟩ := head
      have otherToo := mt (type_eq_iff paired same).mpr other
      obtain ⟨none, _⟩ | ⟨decl', decl'', first, second, related⟩ := rel_cases (fits.type paired)
      · rw [found] at none
        cases none
      · rw [found] at first
        cases first
        rw [Catalog.resolveFrom_new other new found,
          Catalog.resolveFrom_new otherToo (mt (mem_iff visited paired).mpr new) second]
        exact ih (.cons paired visited) (List.rel_append (fits.boundSupertypes related bound) others)

theorem resolveParameter (index : Nat) (paired : p.member m n) (same : p.type a b) :
    Agree p.error (Option.Rel p.type) (c.resolveParameter m index a)
      (d.resolveParameter n index b) := by
  apply (fits.memberDecl paired).bind
  intro decl other _ _ related
  obtain ⟨first, second⟩ | ⟨x, y, first, second, arg⟩ := rel_cases (getElem?_related related.params index)
  · simp only [first, second]
    exact .pure .none
  · obtain ⟨s, t, rfl, rfl, target⟩ | ⟨u, v, rfl, rfl, named⟩ := arg_cases arg
    · simp only [first, second]
      exact .pure (.some target)
    · simp only [first, second]
      apply (fits.typeDecl same).bind
      intro start start' _ _ params
      have itself : List.Forall₂ (p.Binding a a)
          (start.params.map fun param => (param.name, .var param.name))
          (start'.params.map fun param => (param.name, .var param.name)) :=
        List.rel_map (fun _ _ param => ⟨Param.name param, Param.name param⟩) params.params
      have visit : List.Forall₂ (p.Visit a) [(a, _)] [(b, _)] := .cons ⟨same, itself⟩ .nil
      obtain ⟨first, second⟩ | ⟨found, found', first, second, resolved⟩ :=
        rel_cases (fits.resolveFrom related.declaring named .nil visit)
      · simp only [first, second]
        exact .pure (.some (fits.erasure related.declaring named))
      · obtain ⟨s, t, rfl, rfl, target⟩ | ⟨u', v', rfl, rfl, unresolved⟩ := arg_cases resolved
        · simp only [first, second]
          exact .pure (.some target)
        · simp only [first, second]
          exact .pure (.some (fits.erasure same unresolved))

theorem resolvesTo (index : Nat) {types types' : List TypeId} (paired : p.member m n)
    (same : p.type a b) (given : List.Forall₂ p.type types types') :
    Agree p.error Eq (c.resolvesTo m a index types) (d.resolvesTo n b index types') := by
  induction given generalizing index with
  | nil => exact .pure rfl
  | cons head _ ih =>
    apply (fits.resolveParameter index paired same).bind
    intro resolved resolved' _ _ related
    apply Agree.ite (arg_eq_some_iff related head)
    · intro _
      exact ih (index + 1)
    · intro _
      exact .pure rfl

theorem sameParameters {x y x' y' : MemberDecl} (member : p.Member x y) (candidate : p.Member x' y') :
    Agree p.error Eq (c.sameParameters x x') (d.sameParameters y y') := by
  unfold Catalog.sameParameters
  rw [member.params.length_eq, candidate.params.length_eq]
  apply Agree.ite Iff.rfl
  · intro _
    apply (fits.parameterTypes member.id).bind
    intro types types' _ _ given
    apply (fits.parameterTypes candidate.id).bind
    intro erased erased' _ _ others
    have same : erased = types ↔ erased' = types' :=
      Relator.rel_eq p.type_unique.forall₂ others given
    apply Agree.ite same
    · intro _
      exact .pure rfl
    · intro _
      apply (fits.isAssignable candidate.declaring member.declaring).bind
      rintro below _ _ _ rfl
      apply Agree.ite Iff.rfl
      · intro _
        exact fits.resolvesTo 0 candidate.id member.declaring given
      · intro _
        exact .pure rfl
  · intro _
    exact .pure rfl

theorem overrides {m' n' : MemberId} (member : p.member m n) (candidate : p.member m' n') :
    Agree p.error Eq (c.overrides m m') (d.overrides n n') := by
  apply (fits.memberDecl member).bind
  intro x y _ _ first
  apply (fits.memberDecl candidate).bind
  intro x' y' _ _ second
  rw [second.isPrivate, second.name, first.name]
  apply Agree.ite Iff.rfl
  · intro _
    exact fits.sameParameters first second
  · intro _
    exact .pure rfl

end Fits

end Lineage.Pairing
