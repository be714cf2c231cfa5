import Lineage.Proofs.Model.Paired

namespace Lineage.Model

open Catalog (Fills Sound)

variable {c d after : Catalog} {t : TypeSpec} {a b : TypeId}

/-- Types stand for types of the same name, and members for members that are as far from some first
    one: what holds while the same type is filled in two catalogs. -/
def abreast (c d : Catalog) (sound : c.Sound) (soundToo : d.Sound) : Pairing where
  type a b := ∃ name, c.names[a.index]? = some name ∧ d.names[b.index]? = some name
  member x y := x.index + d.members.length = y.index + c.members.length
  parameter _ _ := True
  var _ := Eq
  error _ _ := True
  type_unique := (Pairing.byName c d sound soundToo (fun _ _ => True) fun _ _ => True).type_unique
  member_unique := by
    constructor
    · intro x y z first second
      exact MemberId.eq_of_index (by omega)
    · intro x y z first second
      exact MemberId.eq_of_index (by omega)
  var_unique _ := biUnique_eq

/-- Two runs that add the same members, each to its own catalog, end alike. -/
theorem addMembers_agree {p : Pairing} {k l : Nat}
    (member : ∀ x y : MemberId, x.index + l = y.index + k → p.member x y)
    (names : p.Names c d) (abreast : c.members.length + l = d.members.length + k)
    (listed : a.index < c.typeMembers.length) (listedToo : b.index < d.typeMembers.length)
    {earlier others : List Added} (before : List.Forall₂ p.Added earlier others)
    (specs : List MemberSpec) :
    Agree Eq (fun _ _ => True) (addMembers t a c earlier specs) (addMembers t b d others specs) := by
  induction specs generalizing c d earlier others with
  | nil => exact .ok trivial
  | cons m rest ih =>
    apply (names.memberDef a t m before).bind
    intro x y _ _ defined
    rw [Catalog.addMember_of_listed x listed, Catalog.addMember_of_listed y listedToo]
    have grown (c : Catalog) (on : TypeId) (x : MemberDef) :
        (c.withMember on x).members.length = c.members.length + 1 := List.length_append
    apply ih
    · exact ⟨names.lookup, names.var⟩
    · rw [grown, grown]
      omega
    · exact (List.length_modify ..).symm ▸ listed
    · exact (List.length_modify ..).symm ▸ listedToo
    · apply List.rel_append before
      exact .cons ⟨rfl, member _ _ abreast, isSome_eq_of_rel defined.bridgeOf⟩ .nil

theorem addType_agree (sound : c.Sound) (soundToo : d.Sound) (same : c.names.Perm d.names)
    (blank : Blank c a t.name) (blankToo : Blank d b t.name) :
    Agree Eq (fun _ _ => True) (addType c t) (addType d t) := by
  have names : (abreast c d sound soundToo).Names c d :=
    ⟨Pairing.lookup_related sound soundToo Iff.rfl same, fun _ _ => rfl⟩
  apply Agree.ite Iff.rfl
  · intro _
    exact .ok trivial
  · intro _
    apply (names.typeDef a t).bind
    intro x y first second defined
    have known : c.lookup x.name = some a := name_of_typeDef first ▸ blank.known
    have knownToo : d.lookup y.name = some b := name_of_typeDef second ▸ blankToo.known
    rw [Catalog.define_known known, Catalog.define_known knownToo]
    have filled : (abreast c d sound soundToo).Names (c.withType a x) (d.withType b y) := by
      refine ⟨?_, names.var⟩
      exact names.lookup
    apply addMembers_agree (fun _ _ => id) filled
    · exact Nat.add_comm _ _
    · exact sound.aligned.length_typeMembers ▸ sound.aligned.issued_of_lookup known
    · exact soundToo.aligned.length_typeMembers ▸ soundToo.aligned.issued_of_lookup knownToo
    · exact .nil

def Fillable (names : List String) (t : TypeSpec) : Prop :=
  ∃ c id after, c.Sound ∧ c.names = names ∧ Blank c id t.name ∧ addType c t = .ok after

theorem fillable_of_addTypes {specs : List TypeSpec} (sound : c.Sound)
    (once : (specs.map (·.name)).Nodup) (blank : ∀ t ∈ specs, ∃ id, Blank c id t.name)
    (added : specs.foldlM addType c = .ok after) : ∀ t ∈ specs, Fillable c.names t := by
  induction specs generalizing c with
  | nil => exact nofun
  | cons t rest ih =>
    rw [List.foldlM_cons] at added
    obtain ⟨middle, first, later⟩ := bind_ok added
    obtain ⟨id, here⟩ := blank t (List.mem_cons_self ..)
    obtain ⟨soundNow, fills, _⟩ := addType_installed sound here first
    have blankRest := blank_rest sound once blank here fills
    intro u there
    rcases List.mem_cons.mp there with rfl | there
    · exact ⟨c, id, middle, sound, rfl, here, first⟩
    · exact fills.names ▸ ih soundNow (List.nodup_cons.mp once).2 blankRest later u there

theorem addTypes_of_fillable {specs : List TypeSpec} {names : List String} (sound : c.Sound)
    (once : (specs.map (·.name)).Nodup) (blank : ∀ t ∈ specs, ∃ id, Blank c id t.name)
    (same : names.Perm c.names) (fillable : ∀ t ∈ specs, Fillable names t) :
    ∃ after, specs.foldlM addType c = .ok after := by
  induction specs generalizing c with
  | nil => exact ⟨c, rfl⟩
  | cons t rest ih =>
    obtain ⟨id, here⟩ := blank t (List.mem_cons_self ..)
    obtain ⟨before, other, after, soundThere, rfl, blankThere, filled⟩ :=
      fillable t (List.mem_cons_self ..)
    have agree := addType_agree soundThere sound same blankThere here
    rw [filled] at agree
    cases added : addType c t with
    | error e =>
      rw [added] at agree
      cases agree
    | ok middle =>
      obtain ⟨soundNow, fills, _⟩ := addType_installed sound here added
      rw [List.foldlM_cons, added]
      apply ih soundNow (List.nodup_cons.mp once).2 (blank_rest sound once blank here fills)
      · exact fills.names ▸ same
      · exact fun u there => fillable u (List.mem_cons_of_mem _ there)

/-- Whether a model can be loaded does not depend on the order of its types. -/
theorem load_of_perm {m n : Model} (load : m.load = .ok c) (perm : m.types.Perm n.types) :
    ∃ d, n.load = .ok d := by
  obtain ⟨once, filled⟩ := load_eq_ok_iff.mp load
  have names : (Catalog.rootName :: m.types.map (·.name)).Perm
      (Catalog.rootName :: n.types.map (·.name)) := (perm.map _).cons _
  have onceToo := names.nodup_iff.mp once
  have blank {m : Model} (once : (Catalog.rootName :: m.types.map (·.name)).Nodup) :
      ∀ t ∈ m.types, ∃ id, Blank (reservedFor m) id t.name := by
    intro t there
    obtain ⟨i, listed⟩ := List.mem_iff_getElem?.mp there
    exact ⟨_, blank_reservedFor once listed⟩
  have fillable := fillable_of_addTypes (sound_reservedFor m) (List.nodup_cons.mp once).2
    (blank once) filled
  have same : (reservedFor m).names.Perm (reservedFor n).names := by
    rw [names_reservedFor once, names_reservedFor onceToo]
    exact names
  obtain ⟨d, filledToo⟩ := addTypes_of_fillable (sound_reservedFor n)
    (List.nodup_cons.mp onceToo).2 (blank onceToo) same
    fun t there => fillable t (perm.mem_iff.mpr there)
  exact ⟨d, load_eq_ok_iff.mpr ⟨onceToo, filledToo⟩⟩

end Lineage.Model
