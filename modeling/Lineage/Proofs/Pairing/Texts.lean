import Lineage.Element.Name
import Lineage.Element.Syntax
import Lineage.Proofs.Pairing.Generics
import Lineage.Proofs.Pairing.Values

namespace Lineage

theorem Agree.mapError {ε δ ε' δ' α β : Type} {E : ε → δ → Prop} {R : α → β → Prop}
    {x : Except ε α} {y : Except δ β} {f : ε → ε'} {g : δ → δ'} (agree : Agree E R x y) :
    Agree (fun _ _ => True) R (x.mapError f) (y.mapError g) := by
  cases agree with
  | ok related => exact .ok related
  | error _ => exact .error trivial

namespace Pairing

/-- Fitting catalogs in which names stand for paired types and everything that is paired is known, so
    that nothing has to be called by its id. -/
structure Legible (p : Pairing) (c d : Catalog) : Prop where
  fits : p.Fits c d
  lookup : ∀ name, Option.Rel p.type (c.lookup name) (d.lookup name)
  knownType : ∀ {a b}, p.type a b → c.type? a ≠ none
  knownMember : ∀ {m n}, p.member m n → c.member? m ≠ none

namespace Legible

variable {p : Pairing} {c d : Catalog} (legible : p.Legible c d) {a b : TypeId} {m n : MemberId}
  {e f : Element}
include legible

theorem nameOf (paired : p.type a b) : c.nameOf a = d.nameOf b := by
  unfold Catalog.nameOf
  obtain ⟨unknown, _⟩ | ⟨decl, other, first, second, related⟩ := rel_cases (legible.fits.type paired)
  · exact absurd unknown (legible.knownType paired)
  · rw [first, second]
    exact related.name

theorem render {v w : Value} (alike : p.Val v w) : v.render c.naming = w.render d.naming := by
  apply alike.induct (M := fun v w => v.render c.naming = w.render d.naming)
  case bool | int | float | string => exact fun _ => rfl
  case type => exact fun _ _ same => legible.nameOf same
  case enum =>
    intro a b constant same
    exact congrArg (· ++ "." ++ constant) (legible.nameOf same)
  case record =>
    intro k l vs ws same parts
    have items : Record.renderValues c.naming vs = Record.renderValues d.naming ws := by
      induction parts with
      | nil => rfl
      | @cons x y _ _ head _ ih =>
        obtain ⟨name, v⟩ := x
        obtain ⟨other, w⟩ := y
        obtain ⟨rfl, alike⟩ := head
        simp only [Record.renderValues, Record.renderValue]
        rw [alike, ih]
    simp only [Value.render, Record.render]
    rw [items, isEmpty_eq_of_forall₂ parts, show c.naming.typeText k = d.naming.typeText l from legible.nameOf same]
    rfl
  case array =>
    intro vs ws parts
    have items : Value.renderItems c.naming vs = Value.renderItems d.naming ws := by
      induction parts with
      | nil => rfl
      | cons head _ ih => simp only [Value.renderItems, head, ih]
    simp only [Value.render]
    rw [items]

theorem renderRecord {r s : Record} (related : p.record r s) : r.render c.naming = s.render d.naming :=
  legible.render related

theorem signature (paired : p.member m n) : c.signature m = d.signature n := by
  have types := legible.fits.parameterTypes paired
  unfold Catalog.signature
  generalize c.parameterTypes m = first at types ⊢
  generalize d.parameterTypes n = second at types ⊢
  cases types with
  | error _ => rfl
  | ok related => exact map_eq_of_forall₂ related fun _ _ => legible.nameOf

theorem memberName (paired : p.member m n) : c.memberName m = d.memberName n := by
  unfold Catalog.memberName
  obtain ⟨unknown, _⟩ | ⟨decl, other, first, second, related⟩ :=
    rel_cases (legible.fits.member paired)
  · exact absurd unknown (legible.knownMember paired)
  · rw [first, second]
    simp only
    rw [legible.nameOf related.declaring, related.name, legible.signature paired]

theorem elementName (paired : p.element e f) : c.elementName e = d.elementName f := by
  cases e with
  | type a =>
    cases f with
    | type b => exact legible.nameOf paired
    | member n => cases paired
    | parameter n j => cases paired
  | member m =>
    cases f with
    | type b => cases paired
    | member n => exact legible.memberName paired
    | parameter n j => cases paired
  | parameter m i =>
    cases f with
    | type b => cases paired
    | member n => cases paired
    | parameter n j =>
      obtain ⟨paired, rfl, _⟩ := paired
      exact congrArg (· ++ " param " ++ i.repr) (legible.memberName paired)

theorem parseType (name : List Char) :
    Agree (fun _ _ => True) p.type (Element.parseType c name) (Element.parseType d name) := by
  unfold Element.parseType
  obtain ⟨first, second⟩ | ⟨a, b, first, second, same⟩ :=
    rel_cases (legible.lookup (String.ofList (Text.trim name)))
  · simp only [first, second]
    exact .error trivial
  · simp only [first, second]
    exact .ok same

theorem membersNamed (name : String) (paired : p.type a b) :
    List.Forall₂ p.member (c.membersNamed a name) (d.membersNamed b name) := by
  apply legible.fits.membersWhere paired
  intro x y related
  rw [related.name]

theorem paramNames (text : String) (paired : p.member m n) :
    Agree (fun _ _ => True) Eq (Element.paramNames c text m) (Element.paramNames d text n) := by
  apply (legible.fits.parameterTypes paired).mapError.bind
  intro types others _ _ related
  have names : Agree (fun _ _ => True) (List.Forall₂ Eq)
      (types.mapM fun type => (c.typeName type).mapError ElementError.unnamedParam)
      (others.mapM fun type => (d.typeName type).mapError ElementError.unnamedParam) :=
    .mapM related fun _ _ same => (legible.fits.typeName same).mapError
  rw [List.forall₂_eq_eq_eq] at names
  exact names

theorem findOverload (text : String) (params : List String) {ids others : List MemberId}
    (related : List.Forall₂ p.member ids others) :
    Agree (fun _ _ => True) (Option.Rel p.member) (Element.findOverload c text params ids)
      (Element.findOverload d text params others) := by
  induction related with
  | nil => exact .pure .none
  | cons head _ ih =>
    apply (legible.paramNames text head).bind
    rintro names _ _ _ rfl
    apply Agree.ite Iff.rfl
    · intro _
      exact .pure (.some head)
    · intro _
      exact ih

/-- A text means paired elements, or nothing in either catalog. -/
theorem parseElement (text : List Char) :
    Agree (fun _ _ => True) p.element (Element.parse c text) (Element.parse d text) := by
  unfold Element.parse
  simp only
  cases Text.cut '#' (Text.trim text) with
  | none => exact (legible.parseType _).map fun _ _ same => same
  | some parts =>
    obtain ⟨typePart, memberPart⟩ := parts
    simp only
    apply (legible.parseType typePart).bind
    intro a b _ _ on
    cases Element.splitMember (String.ofList (Text.trim text)) memberPart with
    | error e => exact .error trivial
    | ok split =>
      obtain ⟨name, params⟩ := split
      have listed := legible.membersNamed (String.ofList name) on
      apply Agree.ite Iff.rfl
      · intro _
        exact .error trivial
      · intro _
        cases params with
        | none =>
          generalize c.membersNamed a (String.ofList name) = first at listed ⊢
          generalize d.membersNamed b (String.ofList name) = second at listed ⊢
          cases listed with
          | nil => exact .error trivial
          | cons head _ => exact .pure head
        | some params =>
          apply (legible.findOverload _ params listed).bind
          intro found found' _ _ same
          cases same with
          | none => exact .error trivial
          | some paired => exact .pure paired

end Legible

end Pairing

end Lineage
