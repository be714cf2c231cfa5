import Lineage.Proofs.Catalog.Built
import Lineage.Proofs.Pairing.Itself
import Lineage.Proofs.Pairing.Operations

namespace Lineage

def TypeParam.rename (f : String → String) (x : TypeParam) : TypeParam := { x with name := f x.name }

def TypeArg.rename (f : String → String) : TypeArg → TypeArg
  | .concrete id => .concrete id
  | .var name => .var (f name)

def SuperRef.rename (f : String → String) (r : SuperRef) : SuperRef :=
  { r with args := r.args.map (·.rename f) }

def TypeDecl.rename (f : String → String) (d : TypeDecl) : TypeDecl :=
  { d with
    params := d.params.map (·.rename f)
    superclass := d.superclass.map (·.rename f)
    interfaces := d.interfaces.map (·.rename f) }

def MemberDecl.rename (f : String → String) (d : MemberDecl) : MemberDecl :=
  { d with params := d.params.map (·.rename f) }

namespace Catalog

def renameVars (c : Catalog) (ρ : TypeId → String → String) : Catalog :=
  { c with
    types := c.types.mapIdx fun i d => d.rename (ρ ⟨i⟩)
    members := c.members.map fun d => d.rename (ρ d.declaring) }

variable (c : Catalog) (ρ : TypeId → String → String)

theorem type?_renameVars (id : TypeId) :
    (c.renameVars ρ).type? id = (c.type? id).map (·.rename (ρ id)) := by
  unfold type? renameVars
  rw [List.getElem?_mapIdx]

theorem member?_renameVars (id : MemberId) :
    (c.renameVars ρ).member? id = (c.member? id).map fun d => d.rename (ρ d.declaring) := by
  unfold member? renameVars
  rw [List.getElem?_map]

end Catalog

namespace Pairing

def renamed (ρ : TypeId → String → String) (injective : ∀ id, (ρ id).Injective) : Pairing where
  type := Eq
  member := Eq
  parameter _ _ := True
  var owner x y := ρ owner x = y
  error := Eq
  type_unique := biUnique_eq
  member_unique := biUnique_eq
  var_unique owner :=
    ⟨fun _ _ _ first second => injective owner (first.trans second.symm),
      fun _ _ _ first second => first.symm.trans second⟩

variable {ρ : TypeId → String → String} {injective : ∀ id, (ρ id).Injective}

theorem literal_renamed : (renamed ρ injective).Literal := ⟨id, id, id⟩

theorem arg_renamed (owner : TypeId) (x : TypeArg) :
    (renamed ρ injective).arg owner x (x.rename (ρ owner)) := by
  cases x <;> rfl

theorem ref_renamed (owner : TypeId) (r : SuperRef) :
    (renamed ρ injective).Ref owner r (r.rename (ρ owner)) :=
  ⟨rfl, forall₂_map (arg_renamed owner) r.args⟩

theorem param_renamed (owner : TypeId) (x : TypeParam) :
    (renamed ρ injective).Param owner x (x.rename (ρ owner)) :=
  ⟨rfl, rel_self fun _ _ => rfl⟩

theorem decl_renamed (owner : TypeId) (d : TypeDecl) :
    (renamed ρ injective).Decl owner d (d.rename (ρ owner)) where
  name := rfl
  flavor := rfl
  params := forall₂_map (param_renamed owner) d.params
  superclass := rel_map (ref_renamed owner) d.superclass
  interfaces := forall₂_map (ref_renamed owner) d.interfaces
  enclosing := rel_self fun _ _ => rfl
  inherited := rfl
  present := rfl

theorem member_renamed (d : MemberDecl) :
    (renamed ρ injective).Member d (d.rename (ρ d.declaring)) where
  id := rfl
  name := rfl
  declaring := rfl
  visibility := rfl
  params := forall₂_map (arg_renamed d.declaring) d.params
  returns := returns_self fun _ _ => rfl
  default := rel_self fun _ _ => val_self fun _ _ => rfl
  bridgeOf := rel_self fun _ _ => rfl

theorem fits_renamed (c : Catalog) : (renamed ρ injective).Fits c (c.renameVars ρ) where
  typeCount := by
    unfold Catalog.typeCount Catalog.renameVars
    rw [List.length_mapIdx]
    exact .inl rfl
  root := rfl
  type := by
    rintro a _ rfl
    rw [c.type?_renameVars]
    exact rel_map (decl_renamed a) _
  member := by
    rintro a _ rfl
    rw [c.member?_renameVars]
    exact rel_map member_renamed _
  memberIds := by
    rintro a _ rfl
    exact List.forall₂_same.mpr fun _ _ => rfl
  attached := by
    intro e f paired
    rw [literal_renamed.element paired]
    exact List.forall₂_same.mpr fun r _ => record_self fun _ _ => rfl
  unknownType := by
    rintro a _ rfl _
    rfl
  unknownMember := by
    rintro a _ rfl _
    rfl
  absent := by
    rintro a _ decl rfl _ _
    rfl
  outOfRange := by
    rintro a _ decl index reason rfl _ _ _
    rfl

theorem asks_renamed (op : Operation) : (renamed ρ injective).Asks op := by
  have itself (e : Element) : (renamed ρ injective).element e e := by
    cases e with
    | type id => rfl
    | member id => rfl
    | parameter owner index => exact ⟨rfl, rfl, trivial⟩
  cases op with
  | scan visitor rejects strategy source => exact itself source
  | knownEmpty strategy source => exact itself source
  | declared e | declaredCopy e => exact itself e
  | declaredOfKind e kind => exact ⟨itself e, rfl⟩
  | baseMembers id | attributes id => rfl
  | clear => trivial

end Pairing

namespace Catalog

/-- What the parameters of members stand for and which members override which does not depend on how
    the variables of types are called, and neither does anything that a scanner answers. -/
theorem answers_of_renamed_variables (c : Catalog) (ρ : TypeId → String → String)
    (injective : ∀ id, (ρ id).Injective) :
    (∀ id, (c.renameVars ρ).parameterTypes id = c.parameterTypes id) ∧
    (∀ id index against,
      (c.renameVars ρ).resolveParameter id index against = c.resolveParameter id index against) ∧
    (∀ member candidate, (c.renameVars ρ).overrides member candidate = c.overrides member candidate) ∧
    ∀ settings ops, Scanner.performAll ⟨c.renameVars ρ, settings⟩ ops .empty =
      Scanner.performAll ⟨c, settings⟩ ops .empty := by
  have fits : (Pairing.renamed ρ injective).Fits c (c.renameVars ρ) := Pairing.fits_renamed c
  have literal : (Pairing.renamed ρ injective).Literal := Pairing.literal_renamed
  refine ⟨?_, ?_, ?_, ?_⟩
  · intro member
    have types := fits.parameterTypes (m := member) (n := member) rfl
    exact (literal.agree types fun _ _ same => eq_of_forall₂ same fun _ _ => id).1.symm
  · intro member index against
    have type := fits.resolveParameter (m := member) (n := member) (a := against) index rfl rfl
    exact (literal.agree type fun _ _ same => eq_of_rel same fun _ _ => id).1.symm
  · intro member candidate
    have overridden := fits.overrides (m := member) (n := member) rfl (rfl : candidate = candidate)
    exact (literal.agree overridden fun _ _ => id).1.symm
  · intro settings ops
    have scanners : (Pairing.renamed ρ injective).Scanners ⟨c, settings⟩ ⟨c.renameVars ρ, settings⟩ :=
      ⟨fits, rfl⟩
    rw [Scanner.performAll_eq_freshAnswers, Scanner.performAll_eq_freshAnswers]
    apply List.map_congr_left
    intro op _
    rw [(literal.answer scanners op (Pairing.asks_renamed op)).1]

def crates : Catalog := .ofDecls
  [rootDecl,
    ⟨⟨1⟩, "Item", .classType, [], some ⟨root, []⟩, [], none, false, true⟩,
    ⟨⟨2⟩, "Box", .classType, [⟨"T", none⟩], some ⟨root, []⟩, [], none, false, true⟩,
    ⟨⟨3⟩, "Crate", .classType, [⟨"T", some ⟨1⟩⟩], some ⟨⟨2⟩, [.var "T"]⟩, [], none, false, true⟩]
  [⟨⟨0⟩, "put", ⟨2⟩, .everyone, [.var "T"], .void, none, none⟩,
    ⟨⟨1⟩, "put", ⟨3⟩, .everyone, [.concrete ⟨1⟩], .void, none, none⟩]
  []

def exchanged (id : TypeId) (name : String) : String :=
  if id = ⟨2⟩ then if name = "T" then "E" else if name = "E" then "T" else name else name

theorem exchanged_injective (id : TypeId) : (exchanged id).Injective := by
  intro a b same
  unfold exchanged at same
  grind

theorem answers_of_exchanged_variables :
    (crates.renameVars exchanged).members ≠ crates.members ∧
    (crates.renameVars exchanged).resolveParameter ⟨0⟩ 0 ⟨3⟩ = .ok (some ⟨1⟩) ∧
    (crates.renameVars exchanged).overrides ⟨1⟩ ⟨0⟩ = .ok true := by
  obtain ⟨_, resolved, overridden, _⟩ :=
    answers_of_renamed_variables crates exchanged exchanged_injective
  refine ⟨?_, ?_, ?_⟩
  · intro same
    have params := congrArg (List.map (·.params)) same
    revert params
    decide
  · rw [resolved]
    cbv
  · rw [overridden]
    cbv

end Catalog

end Lineage
