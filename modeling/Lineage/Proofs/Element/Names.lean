import Lineage.Element.Name
import Lineage.Element.Syntax
import Lineage.Proofs.Catalog.Overrides
import Lineage.Proofs.Model.Names
import Lineage.Proofs.Text.Trimmed

namespace Lineage

open Text

variable {c : Catalog} {d : MemberDecl} {id : TypeId} {whole name : String} {names : List String}
  {text part rest before after : List Char}

namespace Catalog

def erasedNames (c : Catalog) (d : MemberDecl) : List String :=
  d.params.map fun arg => c.nameOf (c.eraseArg d.declaring arg)

def sameErasure (c : Catalog) (d e : MemberDecl) : Bool :=
  e.name = d.name ∧ c.erasedNames e = c.erasedNames d

theorem sameErasure_self (c : Catalog) (d : MemberDecl) : c.sameErasure d d = true :=
  decide_eq_true ⟨rfl, rfl⟩

theorem signature_of_present (found : c.memberDecl d.id = .ok d)
    (present : c.isPresent d.declaring = true) : c.signature d.id = c.erasedNames d := by
  rw [signature, parameterTypes_of_present found present]
  exact List.map_map

end Catalog

namespace Element

structure Typable (name : String) : Prop where
  trimmed : Trimmed name.toList
  unmarked : '#' ∉ name.toList

structure Listable (name : String) : Prop where
  trimmed : Trimmed name.toList
  nonempty : name ≠ ""
  single : ',' ∉ name.toList

instance : Decidable (Typable name) :=
  decidable_of_iff (Trimmed name.toList ∧ '#' ∉ name.toList)
    ⟨fun ⟨trimmed, unmarked⟩ => ⟨trimmed, unmarked⟩, fun h => ⟨h.trimmed, h.unmarked⟩⟩

instance : Decidable (Listable name) :=
  decidable_of_iff (Trimmed name.toList ∧ name ≠ "" ∧ ',' ∉ name.toList)
    ⟨fun ⟨trimmed, nonempty, single⟩ => ⟨trimmed, nonempty, single⟩,
      fun h => ⟨h.trimmed, h.nonempty, h.single⟩⟩

/-- A member of a type that is there, with names that its separators can be told from. -/
structure Writable (c : Catalog) (d : MemberDecl) : Prop where
  present : c.isPresent d.declaring = true
  typable : Typable (c.nameOf d.declaring)
  trimmed : Trimmed d.name.toList
  nonempty : d.name ≠ ""
  unopened : '(' ∉ d.name.toList
  listable : ∀ name ∈ c.erasedNames d, Listable name

instance : Decidable (Writable c d) :=
  decidable_of_iff
    (c.isPresent d.declaring = true ∧ Typable (c.nameOf d.declaring) ∧ Trimmed d.name.toList ∧
      d.name ≠ "" ∧ '(' ∉ d.name.toList ∧ ∀ name ∈ c.erasedNames d, Listable name)
    ⟨fun ⟨present, typable, trimmed, nonempty, unopened, listable⟩ =>
        ⟨present, typable, trimmed, nonempty, unopened, listable⟩,
      fun h => ⟨h.present, h.typable, h.trimmed, h.nonempty, h.unopened, h.listable⟩⟩

inductive Listed : List String → List Char → Prop
  | none {gap : List Char} : Gap gap → Listed [] gap
  | last {name : String} {before after : List Char} : Gap before → Gap after →
    Listed [name] (before ++ name.toList ++ after)
  | more {name next : String} {names : List String} {before after rest : List Char} : Gap before →
    Gap after → Listed (next :: names) rest →
    Listed (name :: next :: names) (before ++ name.toList ++ after ++ ',' :: rest)

inductive Written (c : Catalog) (d : MemberDecl) : List Char → Prop
  | intro {ofType before after list final : List Char} : Gap ofType → Gap before → Gap after →
    Listed (c.erasedNames d) list → Gap final →
    Written c d ((c.nameOf d.declaring).toList ++ ofType ++ '#' ::
      (before ++ d.name.toList ++ after ++ '(' :: list ++ ')' :: final))

theorem isEmpty_toList (nonempty : name ≠ "") : name.toList.isEmpty = false := by
  rw [List.isEmpty_eq_false_iff, ne_eq, String.toList_eq_nil_iff]
  exact nonempty

theorem parseParams_append (absent : ',' ∉ part) :
    parseParams (part ++ ',' :: rest) = parseParams part ++ parseParams rest := by
  rw [parseParams, pieces_append absent, List.map_cons, ← List.singleton_append, List.filter_append]
  rw [parseParams, pieces_of_not_mem absent, parseParams]
  rfl

theorem Listable.parseParams (listable : Listable name) (blankBefore : Gap before)
    (blankAfter : Gap after) :
    ',' ∉ before ++ name.toList ++ after ∧
      parseParams (before ++ name.toList ++ after) = [name.toList] := by
  have absent := not_mem_between rfl listable.single blankBefore blankAfter
  refine ⟨absent, ?_⟩
  rw [Element.parseParams, pieces_of_not_mem absent, List.map_singleton,
    listable.trimmed.trim_between blankBefore blankAfter, List.filter_singleton,
    isEmpty_toList listable.nonempty]
  rfl

theorem Listed.parseParams (listed : Listed names text) (listable : ∀ name ∈ names, Listable name) :
    Element.parseParams text = names.map String.toList := by
  induction listed with
  | none blank =>
    have nothing := trim_gap_append blank []
    rw [List.append_nil] at nothing
    rw [Element.parseParams, pieces_of_not_mem (blank.not_mem rfl), List.map_singleton, nothing]
    rfl
  | last blankBefore blankAfter =>
    have only := listable _ (List.mem_singleton_self _)
    exact (only.parseParams blankBefore blankAfter).2
  | more blankBefore blankAfter _ ih =>
    obtain ⟨first, others⟩ := List.forall_mem_cons.mp listable
    obtain ⟨absent, read⟩ := first.parseParams blankBefore blankAfter
    rw [parseParams_append absent, read, ih others]
    rfl

theorem Listed.gap_append (listed : Listed names text) (blank : Gap before) :
    Listed names (before ++ text) := by
  cases listed with
  | none given => exact .none (blank.append given)
  | last blankBefore blankAfter =>
    rw [← List.append_assoc, ← List.append_assoc]
    exact .last (blank.append blankBefore) blankAfter
  | more blankBefore blankAfter others =>
    rw [← List.append_assoc, ← List.append_assoc, ← List.append_assoc]
    exact .more (blank.append blankBefore) blankAfter others

theorem listed_intercalate (names : List String) : Listed names (", ".intercalate names).toList := by
  induction names with
  | nil => exact .none gap_nil
  | cons name names ih =>
    cases names with
    | nil =>
      have alone : Listed [name] ([] ++ name.toList ++ []) := .last gap_nil gap_nil
      rw [List.nil_append, List.append_nil] at alone
      rw [String.intercalate_singleton]
      exact alone
    | cons next names =>
      have blank : Gap [' '] := by decide
      have more : Listed (name :: next :: names) ([] ++ name.toList ++ [] ++ ',' :: ([' '] ++ _)) :=
        .more gap_nil gap_nil (ih.gap_append blank)
      rw [List.nil_append, List.append_nil] at more
      rw [String.intercalate_cons_cons, String.toList_append, String.toList_append,
        List.append_assoc]
      exact more

theorem parseType_of_trim (same : trim part = name.toList) (known : c.lookup name = some id) :
    parseType c part = .ok id := by
  rw [parseType, same, String.ofList_toList, known]

theorem splitMember_written (writable : Writable c d) {list : List Char} (blankBefore : Gap before)
    (blankAfter : Gap after) (listed : Listed (c.erasedNames d) list) :
    splitMember whole (before ++ d.name.toList ++ after ++ '(' :: list ++ [')']) =
      .ok (d.name.toList, some (c.erasedNames d)) := by
  have names : (c.erasedNames d).map (String.ofList ∘ String.toList) = c.erasedNames d := by
    simp [Function.comp_def]
  have parts : cut '(' (before ++ d.name.toList ++ after ++ '(' :: list ++ [')']) =
      some (before ++ d.name.toList ++ after, list ++ [')']) := by
    rw [List.append_assoc _ ('(' :: list)]
    exact cut_append (not_mem_between rfl writable.unopened blankBefore blankAfter)
  simp only [splitMember, parts, dropEnding?_append,
    writable.trimmed.trim_between blankBefore blankAfter, listed.parseParams writable.listable,
    List.map_map, names]

theorem paramNames_of_present (found : c.memberDecl d.id = .ok d)
    (present : c.isPresent d.declaring = true)
    (issued : ∀ arg ∈ d.params, (c.eraseArg d.declaring arg).index < c.typeCount) :
    paramNames c whole d.id = .ok (c.erasedNames d) := by
  have each : ∀ type ∈ d.params.map (c.eraseArg d.declaring),
      (c.typeName type).mapError ElementError.unnamedParam = .ok (c.nameOf type) := by
    intro type listed
    obtain ⟨arg, given, rfl⟩ := List.mem_map.mp listed
    have stored : c.type? (c.eraseArg d.declaring arg) = some _ :=
      List.getElem?_eq_getElem (issued arg given)
    simp only [Catalog.typeName, Catalog.typeDecl, stored, Catalog.nameOf_of_found stored]
    rfl
  have read : paramNames c whole d.id =
      (d.params.map (c.eraseArg d.declaring)).mapM fun type =>
        (c.typeName type).mapError ElementError.unnamedParam := by
    rw [paramNames, Catalog.parameterTypes_of_present found present]
    rfl
  rw [read, mapM_of_ok each, List.map_map]
  rfl

theorem findOverload_map {members : List MemberDecl}
    (each : ∀ e ∈ members, paramNames c whole e.id = .ok (c.erasedNames e)) :
    findOverload c whole names (members.map (·.id)) =
      .ok ((members.find? (c.erasedNames · = names)).map (·.id)) := by
  induction members with
  | nil => rfl
  | cons e members ih =>
    obtain ⟨first, others⟩ := List.forall_mem_cons.mp each
    rw [List.map_cons, findOverload, first, List.find?_cons]
    by_cases same : c.erasedNames e = names
    · simp [same, Bind.bind, Except.bind, Pure.pure, Except.pure]
    · simp [same, ih others, Bind.bind, Except.bind]

theorem findOverload_first (built : c.Built)
    (issued : ∀ d ∈ c.members, ∀ arg ∈ d.params, (c.eraseArg d.declaring arg).index < c.typeCount)
    (present : c.isPresent d.declaring = true) :
    findOverload c whole (c.erasedNames d) (c.membersNamed d.declaring d.name) =
      .ok (((c.membersOf d.declaring).find? (c.sameErasure d)).map (·.id)) := by
  have each : ∀ e ∈ (c.membersOf d.declaring).filter (·.name = d.name),
      paramNames c whole e.id = .ok (c.erasedNames e) := by
    intro e listed
    obtain ⟨known, same⟩ := built.aligned.numbered.memberDecl (List.mem_filter.mp listed).1
    exact paramNames_of_present known (same ▸ present)
      (issued e (Catalog.mem_members_of_memberDecl known))
  have search : ((c.membersOf d.declaring).filter (·.name = d.name)).find?
      (c.erasedNames · = c.erasedNames d) = (c.membersOf d.declaring).find? (c.sameErasure d) := by
    rw [List.find?_filter]
    simp only [decide_eq_true_eq]
    rfl
  rw [Catalog.membersNamed, built.aligned.membersWhere, findOverload_map each, search]

/-- A member's text is read as the first of its overloads that is found. -/
theorem parse_written {first : MemberId} (writable : Writable c d)
    (known : c.lookup (c.nameOf d.declaring) = some d.declaring)
    (found : ∀ whole, findOverload c whole (c.erasedNames d) (c.membersNamed d.declaring d.name) =
      .ok (some first))
    (written : Written c d text) : parse c text = .ok (.member first) := by
  obtain @⟨ofType, before, after, list, final, blankType, blankBefore, blankAfter, listed, blankFinal⟩ :=
    written
  let opening := ((c.nameOf d.declaring).toList ++ ofType).dropWhile isBlank
  let ending := before ++ d.name.toList ++ after ++ '(' :: list
  have whole : trim ((c.nameOf d.declaring).toList ++ ofType ++ '#' :: (ending ++ ')' :: final)) =
      opening ++ '#' :: (ending ++ [')']) := trim_marked rfl rfl _ _ blankFinal
  have absent : '#' ∉ opening := by
    intro there
    rcases List.mem_append.mp ((List.dropWhile_suffix _).subset there) with inName | inGap
    · exact writable.typable.unmarked inName
    · exact blankType.not_mem rfl inGap
  have named : trim opening = (c.nameOf d.declaring).toList := by
    rw [trim_dropWhile, trim_append_gap blankType, writable.typable.trimmed]
  simp only [parse, whole, cut_append absent, parseType_of_trim named known,
    splitMember_written writable blankBefore blankAfter listed, ending,
    isEmpty_toList writable.nonempty, String.ofList_toList, found, Bind.bind, Except.bind]
  rfl

theorem written_elementName (found : c.member? d.id = some d)
    (present : c.isPresent d.declaring = true) :
    Written c d (c.elementName (.member d.id)).toList := by
  have known : c.memberDecl d.id = .ok d := by rw [Catalog.memberDecl, found]
  have shown : (c.elementName (.member d.id)).toList = (c.nameOf d.declaring).toList ++ [] ++ '#' ::
      ([] ++ d.name.toList ++ [] ++ '(' :: (", ".intercalate (c.erasedNames d)).toList ++
        ')' :: []) := by
    rw [Catalog.elementName, Catalog.memberName, found, ← Catalog.signature_of_present known present]
    simp [String.toList_append]
  rw [shown]
  exact .intro gap_nil gap_nil gap_nil (listed_intercalate _) gap_nil

theorem parse_typeName {decl : TypeDecl} (built : c.Built) (found : c.type? id = some decl)
    (typable : Typable decl.name) : ofText c (c.elementName (.type id)) = .ok (.type id) := by
  have known := built.lookup_nameOf found
  rw [← Catalog.nameOf_of_found found] at typable
  have whole : trim (c.nameOf id).toList = (c.nameOf id).toList := typable.trimmed
  simp only [ofText, Catalog.elementName, parse, whole, cut_eq_none typable.unmarked,
    parseType_of_trim whole known]
  rfl

/-- The first member of a type with a name and names of erased parameter types is the member itself
    or an earlier one. -/
theorem exists_first (numbered : c.Numbered) (found : c.member? d.id = some d) :
    ∃ first, (c.membersOf d.declaring).find? (c.sameErasure d) = some first ∧
      (first.id = d.id ∨ first.id.index < d.id.index) := by
  have listed : d ∈ c.membersOf d.declaring :=
    List.mem_filter.mpr ⟨List.mem_of_getElem? found, decide_eq_true rfl⟩
  obtain ⟨first, isFirst⟩ := Option.isSome_iff_exists.mp
    (List.find?_isSome.mpr ⟨d, listed, c.sameErasure_self d⟩)
  obtain ⟨_, earlier, later, split, differ⟩ := List.find?_eq_some_iff_append.mp isFirst
  refine ⟨first, isFirst, ?_⟩
  have increase : (c.membersOf d.declaring).Pairwise fun d e => d.id.index < e.id.index :=
    numbered.ids_increase.filter _
  rw [split] at listed increase
  rcases List.mem_append.mp listed with before | onward
  · have itself := differ d before
    rw [c.sameErasure_self d] at itself
    cases itself
  · rcases List.mem_cons.mp onward with same | after
    · exact .inl (same ▸ rfl)
    · exact .inr ((List.pairwise_cons.mp (List.pairwise_append.mp increase).2.1).1 d after)

/-- A type that is written by its name is read as that type, and a member as the first one of its
    type with its name and the names of its erased parameter types. -/
theorem names_read_back (built : c.Built)
    (issued : ∀ d ∈ c.members, ∀ arg ∈ d.params,
      (c.eraseArg d.declaring arg).index < c.typeCount) :
    (∀ id decl, c.type? id = some decl → Typable decl.name →
      ofText c (c.elementName (.type id)) = .ok (.type id)) ∧
    ∀ id d, c.member? id = some d → Writable c d →
      Written c d (c.elementName (.member id)).toList ∧
      ∃ first, (c.membersOf d.declaring).find? (c.sameErasure d) = some first ∧
        (first.id = id ∨ first.id.index < id.index) ∧
        ∀ text, Written c d text → parse c text = .ok (.member first.id) := by
  refine ⟨fun id decl found typable => parse_typeName built found typable,
    fun id d found writable => ?_⟩
  have numbered := built.aligned.numbered
  obtain rfl := numbered id d found
  obtain ⟨first, isFirst, order⟩ := exists_first numbered found
  refine ⟨written_elementName found writable.present, first, isFirst, order, fun text written => ?_⟩
  obtain ⟨decl, stored, _⟩ := Catalog.load_of_present writable.present
  refine parse_written writable (built.lookup_nameOf stored) (fun whole => ?_) written
  rw [findOverload_first built issued writable.present, isFirst]
  rfl

def depot : Catalog := .ofDecls
  [Catalog.rootDecl,
    ⟨⟨1⟩, "acme.Item", .interface, [], none, [], none, false, true⟩,
    ⟨⟨2⟩, "acme.Pair(of #2)", .interface, [], none, [], none, false, true⟩,
    ⟨⟨3⟩, "acme.Depot (new, old)", .interface, [⟨"T", some ⟨1⟩⟩], none, [], none, false, true⟩]
  [⟨⟨0⟩, "put", ⟨3⟩, .everyone, [.concrete ⟨1⟩], .void, none, none⟩,
    ⟨⟨1⟩, "put", ⟨3⟩, .everyone, [.var "T"], .void, none, none⟩,
    ⟨⟨2⟩, "put", ⟨3⟩, .everyone, [.var "T", .concrete ⟨2⟩], .void, none, none⟩,
    ⟨⟨3⟩, "drop #1)", ⟨3⟩, .everyone, [], .void, none, none⟩]
  []

theorem depot_built : depot.Built := by
  have types := ((Catalog.Built.initial.define { name := "acme.Item", flavor := .interface }).define
    { name := "acme.Pair(of #2)", flavor := .interface }).define
    { name := "acme.Depot (new, old)", flavor := .interface, params := [⟨"T", some ⟨1⟩⟩] }
  have first := types.addMember ⟨3⟩ { name := "put", params := [.concrete ⟨1⟩] } rfl
  have second := first.addMember ⟨3⟩ { name := "put", params := [.var "T"] } rfl
  have third := second.addMember ⟨3⟩ { name := "put", params := [.var "T", .concrete ⟨2⟩] } rfl
  exact third.addMember ⟨3⟩ { name := "drop #1)" } rfl

theorem depot_names_read_back :
    depot.Built ∧
    (∀ d ∈ depot.members, ∀ arg ∈ d.params,
      (depot.eraseArg d.declaring arg).index < depot.typeCount) ∧
    ofText depot (depot.elementName (.type ⟨3⟩)) = .ok (.type ⟨3⟩) ∧
    ofText depot (depot.elementName (.member ⟨1⟩)) = .ok (.member ⟨0⟩) ∧
    parse depot "acme.Depot (new, old) #put( acme.Item ,acme.Pair(of #2)) ".toList =
      .ok (.member ⟨2⟩) := by
  have issued : ∀ d ∈ depot.members, ∀ arg ∈ d.params,
      (depot.eraseArg d.declaring arg).index < depot.typeCount := by decide
  obtain ⟨types, members⟩ := names_read_back depot_built issued
  refine ⟨depot_built, issued, types ⟨3⟩ _ rfl (by decide), ?_, ?_⟩
  · obtain ⟨shown, first, isFirst, _, reads⟩ := members ⟨1⟩ _ rfl (by decide)
    have same : depot.member? ⟨0⟩ = some first := isFirst
    cases same
    exact reads _ shown
  · obtain ⟨_, first, isFirst, _, reads⟩ := members ⟨2⟩ _ rfl (by decide)
    have same : depot.member? ⟨2⟩ = some first := isFirst
    cases same
    have blank : Gap [' '] := by decide
    have last : Listed ["acme.Pair(of #2)"] "acme.Pair(of #2)".toList := .last gap_nil gap_nil
    have list : Listed ["acme.Item", "acme.Pair(of #2)"] " acme.Item ,acme.Pair(of #2)".toList :=
      .more blank blank last
    exact reads _ (.intro (c := depot) (d := depot.members[2]) blank gap_nil gap_nil list blank)

end Element

end Lineage
