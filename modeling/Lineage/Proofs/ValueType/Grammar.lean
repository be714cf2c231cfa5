import Lineage.Element.Name
import Lineage.Proofs.Catalog.Links
import Lineage.Proofs.Model.Names
import Lineage.Proofs.Text.Trimmed
import Lineage.ValueType.Syntax

namespace Lineage.ValueType

open Text

variable {c : Catalog} {base text item label before after : List Char} {name : String} {pairs : Nat}
  {id : TypeId} {v : ValueType}

def arrays : Nat → ValueType → ValueType
  | 0, v => v
  | n + 1, v => .array (arrays n v)

def marks : List (String × (TypeId → ValueType)) := [("enum", .enum), ("record", .record)]

/-- What a text without brackets stands for: a keyword for itself, and a mark with the exact name of a
    type for what the mark makes of the type. -/
inductive Denotes (c : Catalog) : List Char → ValueType → Prop
  | keyword {word : String} {v : ValueType} : (word, v) ∈ keywords → Denotes c word.toList v
  | named {mark name : String} {kind : TypeId → ValueType} {id : TypeId} : (mark, kind) ∈ marks →
    c.lookup name = some id → Denotes c (mark.toList ++ ':' :: name.toList) (kind id)

inductive Bracketed (base : List Char) : Nat → List Char → Prop
  | base {before after : List Char} : Gap before → Gap after →
    Bracketed base 0 (before ++ base ++ after)
  | pair {n : Nat} {text before after : List Char} : Bracketed base n text → Gap before → Gap after →
    Bracketed base (n + 1) (text ++ before ++ ['[', ']'] ++ after)

structure Layout (text base : List Char) (pairs : Nat) : Prop where
  trimmed : Trimmed base
  bare : ¬['[', ']'] <:+ base
  bracketed : Bracketed base pairs text

theorem findNamed_marked (label name : List Char) :
    findNamed (String.ofList (label ++ ':' :: name)) keywords = none := by
  have unmarked : ∀ entry ∈ keywords, ':' ∉ entry.1.toList := by decide
  rw [findNamed, Option.map_eq_none_iff, List.find?_eq_none]
  rintro ⟨word, keyword⟩ listed same
  have clean := unmarked _ listed
  rw [of_decide_eq_true same, String.toList_ofList] at clean
  exact clean (List.mem_append_right _ List.mem_cons_self)

theorem parseBase_marked (absent : ':' ∉ label) (name : String) :
    parseBase c (label ++ ':' :: name.toList) =
      match c.lookup name with
      | none => .error (.invalidValueType (String.ofList (label ++ ':' :: name.toList)))
      | some id =>
        if label = "enum".toList then .ok (.enum id)
        else if label = "record".toList then .ok (.record id)
        else .error (.invalidValueType (String.ofList (label ++ ':' :: name.toList))) := by
  cases known : c.lookup name <;>
    simp only [parseBase, findNamed_marked, cut_append absent, String.ofList_toList, known]

theorem mark_cases {mark : String} {kind : TypeId → ValueType} (listed : (mark, kind) ∈ marks) :
    (mark = "enum" ∧ kind = .enum) ∨ (mark = "record" ∧ kind = .record) := by
  simpa [marks] using listed

theorem parseBase_named {mark : String} {kind : TypeId → ValueType} (listed : (mark, kind) ∈ marks)
    (name : String) :
    parseBase c (mark.toList ++ ':' :: name.toList) =
      match c.lookup name with
      | none => .error (.invalidValueType (String.ofList (mark.toList ++ ':' :: name.toList)))
      | some id => .ok (kind id) := by
  rcases mark_cases listed with ⟨rfl, rfl⟩ | ⟨rfl, rfl⟩ <;> exact parseBase_marked (by decide) name

theorem parseBase_keyword {word : String} (listed : (word, v) ∈ keywords) :
    parseBase c word.toList = .ok v := by
  have distinct : ∀ entry ∈ keywords, findNamed entry.1 keywords = some entry.2 := by decide
  have found := distinct _ listed
  unfold parseBase
  simp only [String.ofList_toList, found]

theorem parseBase_of_denotes (denotes : Denotes c base v) : parseBase c base = .ok v := by
  cases denotes with
  | keyword listed => exact parseBase_keyword listed
  | named listed known => rw [parseBase_named listed, known]

theorem marked_cases (absent : ':' ∉ label) (name : String) :
    (∃ v, Denotes c (label ++ ':' :: name.toList) v) ∨
      parseBase c (label ++ ':' :: name.toList) =
        .error (.invalidValueType (String.ofList (label ++ ':' :: name.toList))) := by
  rw [parseBase_marked absent]
  cases known : c.lookup name with
  | none => exact .inr rfl
  | some id =>
    by_cases marked : ∃ kind, (String.ofList label, kind) ∈ marks
    · obtain ⟨kind, listed⟩ := marked
      have denotes : Denotes c ((String.ofList label).toList ++ ':' :: name.toList) (kind id) :=
        .named listed known
      rw [String.toList_ofList] at denotes
      exact .inl ⟨_, denotes⟩
    · have differs {mark : String} {kind : TypeId → ValueType} (listed : (mark, kind) ∈ marks) :
          label ≠ mark.toList := by
        rintro rfl
        rw [String.ofList_toList] at marked
        exact marked ⟨kind, listed⟩
      have notEnum := differs (List.mem_cons_self ..)
      have notRecord := differs (List.mem_cons_of_mem _ (List.mem_cons_self ..))
      exact .inr ((if_neg notEnum).trans (if_neg notRecord))

/-- A base denotes something, or it is the error. -/
theorem denotes_or_refused (c : Catalog) (base : List Char) :
    (∃ v, Denotes c base v) ∨
      parseBase c base = .error (.invalidValueType (String.ofList base)) := by
  cases found : findNamed (String.ofList base) keywords with
  | some keyword =>
    obtain ⟨⟨word, _⟩, there, rfl⟩ := Option.map_eq_some_iff.mp found
    have same : word = String.ofList base := by simpa using List.find?_some there
    rw [← String.toList_ofList (l := base), ← same]
    exact .inl ⟨_, .keyword (List.mem_of_find?_eq_some there)⟩
  | none =>
    cases parts : cut ':' base with
    | none =>
      right
      unfold parseBase
      simp only [found, parts]
    | some both =>
      obtain ⟨label, name⟩ := both
      obtain ⟨rfl, absent⟩ := cut_eq_some parts
      rw [← String.toList_ofList (l := name)]
      exact marked_cases absent _

theorem parseBase_eq_ok_iff : parseBase c base = .ok v ↔ Denotes c base v := by
  refine ⟨fun read => ?_, parseBase_of_denotes⟩
  rcases denotes_or_refused c base with ⟨w, denotes⟩ | refused
  · rw [parseBase_of_denotes denotes] at read
    cases read
    exact denotes
  · rw [refused] at read
    cases read

theorem parse_of_trim (same : trim text = trim item) : parse c text = parse c item := by
  cases found : dropEnding? ['[', ']'] (trim text) with
  | none =>
    have foundToo := found
    rw [same] at foundToo
    rw [parse_base found, parse_base foundToo, same]
  | some _ =>
    have foundToo := found
    rw [same] at foundToo
    rw [parse_array found, parse_array foundToo]

theorem parse_brackets (text : List Char) (blankBefore : Gap before) (blankAfter : Gap after) :
    parse c (text ++ before ++ ['[', ']'] ++ after) = .array <$> parse c text := by
  have trimmed : trim (text ++ before ++ '[' :: ([] ++ ']' :: after)) =
      (text ++ before).dropWhile isBlank ++ ['[', ']'] := trim_marked rfl rfl _ _ blankAfter
  have array : dropEnding? ['[', ']'] (trim (text ++ before ++ ['[', ']'] ++ after)) =
      some ((text ++ before).dropWhile isBlank) := by
    rw [List.append_assoc _ ['[', ']']]
    exact trimmed ▸ dropEnding?_append ..
  rw [parse_array array, parse_of_trim ((trim_dropWhile _).trans (trim_append_gap blankBefore text))]

theorem Layout.parse (layout : Layout text base pairs) :
    parse c text = arrays pairs <$> parseBase c base := by
  obtain ⟨trimmed, bare, bracketed⟩ := layout
  induction bracketed with
  | base blankBefore blankAfter =>
    have whole := trimmed.trim_between blankBefore blankAfter
    rw [parse_base (by rw [whole]; exact dropEnding?_eq_none_iff.mpr bare), whole]
    exact (id_map _).symm
  | pair _ blankBefore blankAfter ih =>
    rw [parse_brackets _ blankBefore blankAfter, ih]
    cases parseBase c base <;> rfl

theorem Bracketed.gap_append {n : Nat} (bracketed : Bracketed base n text) (blank : Gap before) :
    Bracketed base n (before ++ text) := by
  induction bracketed with
  | base blankBefore blankAfter =>
    rw [← List.append_assoc, ← List.append_assoc]
    exact .base (blank.append blankBefore) blankAfter
  | pair _ blankBefore blankAfter ih =>
    rw [← List.append_assoc, ← List.append_assoc, ← List.append_assoc]
    exact .pair ih blankBefore blankAfter

/-- Every text can be taken apart. -/
theorem exists_layout (text : List Char) : ∃ base pairs, Layout text base pairs := by
  induction text using ValueType.parse.induct with
  | case1 text item array shorter ih =>
    obtain ⟨base, pairs, trimmed, bare, bracketed⟩ := ih
    obtain ⟨before, after, blankBefore, blankAfter, whole⟩ := exists_gaps text
    rw [dropEnding?_eq_some_iff.mp array] at whole
    refine ⟨base, pairs + 1, trimmed, bare, ?_⟩
    have more := Bracketed.pair (bracketed.gap_append blankBefore) gap_nil blankAfter
    rw [List.append_nil, List.append_assoc before] at more
    rw [whole]
    exact more
  | case2 text base =>
    obtain ⟨before, after, blankBefore, blankAfter, whole⟩ := exists_gaps text
    refine ⟨trim text, 0, trimmed_trim text, dropEnding?_eq_none_iff.mp base, ?_⟩
    have alone : Bracketed (trim text) 0 (before ++ trim text ++ after) := .base blankBefore blankAfter
    rw [← whole] at alone
    exact alone

/-- A text is read if its base denotes something, and then as that many arrays of it. -/
theorem parse_eq_ok_iff : parse c text = .ok v ↔
    ∃ base pairs inner, Layout text base pairs ∧ Denotes c base inner ∧ v = arrays pairs inner := by
  constructor
  · intro read
    obtain ⟨base, pairs, layout⟩ := exists_layout text
    rw [layout.parse] at read
    obtain ⟨inner, readBase, rfl⟩ := map_ok read
    exact ⟨base, pairs, inner, layout, parseBase_eq_ok_iff.mp readBase, rfl⟩
  · rintro ⟨base, pairs, inner, layout, denotes, rfl⟩
    rw [layout.parse, parseBase_of_denotes denotes]
    rfl

theorem Layout.refused (layout : Layout text base pairs) (nothing : ∀ inner, ¬Denotes c base inner) :
    ValueType.parse c text = .error (.invalidValueType (String.ofList base)) := by
  rcases denotes_or_refused c base with ⟨inner, denotes⟩ | refused
  · exact absurd denotes (nothing inner)
  · rw [layout.parse, refused]
    rfl

def spelled (name : TypeId → String) : ValueType → String
  | .void => "void"
  | .bool => "bool"
  | .int => "int"
  | .float => "float"
  | .string => "string"
  | .type => "type"
  | .enum id => "enum:" ++ name id
  | .record kind => "record:" ++ name kind
  | .array item => item.spelled name ++ "[]"

def named? : ValueType → Option TypeId
  | .enum id | .record id => some id
  | .array item => item.named?
  | _ => none

theorem text_eq_spelled (v : ValueType) : v.text = v.spelled TypeId.text := by
  induction v with
  | array item ih => rw [text, spelled, ih]
  | _ => rfl

structure Tight (name : String) : Prop where
  visible : ∀ ch ∈ name.toList.getLast?, isBlank ch = false
  bare : ¬['[', ']'] <:+ name.toList

instance : Decidable (Tight name) :=
  let _ : Decidable (∀ ch ∈ name.toList.getLast?, isBlank ch = false) :=
    Option.decidableForallMem _
  decidable_of_iff
    ((∀ ch ∈ name.toList.getLast?, isBlank ch = false) ∧ ¬['[', ']'] <:+ name.toList)
    ⟨fun ⟨visible, bare⟩ => ⟨visible, bare⟩, fun tight => ⟨tight.visible, tight.bare⟩⟩

theorem layout_self (trimmed : Trimmed base) (bare : ¬['[', ']'] <:+ base) : Layout base base 0 := by
  have alone : Bracketed base 0 ([] ++ base ++ []) := .base gap_nil gap_nil
  rw [List.nil_append, List.append_nil] at alone
  exact ⟨trimmed, bare, alone⟩

theorem layout_keyword {word : String} (listed : (word, v) ∈ keywords) :
    Layout word.toList word.toList 0 := by
  have clean : ∀ entry ∈ keywords, trim entry.1.toList = entry.1.toList ∧
      ¬['[', ']'] <:+ entry.1.toList := by decide
  obtain ⟨trimmed, bare⟩ := clean _ listed
  exact layout_self trimmed bare

theorem layout_marked (first : ∀ ch ∈ label.head?, isBlank ch = false) (tight : Tight name) :
    Layout (label ++ ':' :: name.toList) (label ++ ':' :: name.toList) 0 := by
  refine layout_self (trimmed_of_ends (fun ch given => ?_) fun ch given => ?_) fun ends => ?_
  · cases label with
    | nil =>
      cases given
      rfl
    | cons letter label =>
      cases given
      exact first _ rfl
  · rw [List.getLast?_append, List.getLast?_cons] at given
    cases final : name.toList.getLast? with
    | none =>
      rw [final] at given
      cases given
      rfl
    | some letter =>
      rw [final] at given
      cases given
      exact tight.visible _ final
  · -- the mark is no bracket, so the brackets would belong to the name
    rcases List.suffix_or_suffix_of_suffix ends (List.suffix_append label _) with within | beyond
    · rcases List.suffix_cons_iff.mp within with same | within
      · cases same
      · exact tight.bare within
    · have member : ':' ∈ ['[', ']'] := beyond.subset List.mem_cons_self
      exact absurd member (by decide)

theorem Layout.parse_alone (layout : Layout text base 0) :
    ValueType.parse c text = parseBase c base :=
  layout.parse.trans (id_map _)

theorem parse_keyword {word : String} (listed : (word, v) ∈ keywords) :
    parse c word.toList = .ok v :=
  (layout_keyword listed).parse_alone.trans (parseBase_keyword listed)

theorem parse_named {mark : String} {kind : TypeId → ValueType} (listed : (mark, kind) ∈ marks)
    (tight : Tight name) :
    parse c (mark.toList ++ ':' :: name.toList) = .ok (kind id) ↔ c.lookup name = some id := by
  have first : ∀ ch ∈ mark.toList.head?, isBlank ch = false := by
    rcases mark_cases listed with ⟨rfl, _⟩ | ⟨rfl, _⟩ <;> rintro _ ⟨⟩ <;> rfl
  rw [(layout_marked first tight).parse_alone, parseBase_named listed]
  cases c.lookup name with
  | none => exact iff_of_false nofun nofun
  | some other => rcases mark_cases listed with ⟨_, rfl⟩ | ⟨_, rfl⟩ <;> simp

theorem parse_spelled {name : TypeId → String} (tight : ∀ id ∈ v.named?, Tight (name id)) :
    parse c (v.spelled name).toList = .ok v ↔ ∀ id ∈ v.named?, c.lookup (name id) = some id := by
  have only (id : TypeId) :
      (∀ other ∈ some id, c.lookup (name other) = some other) ↔ c.lookup (name id) = some id := by
    simp
  induction v with
  | void | bool | int | float | string | type =>
    exact iff_of_true (parse_keyword (by simp [keywords, spelled])) nofun
  | enum id =>
    have listed : ("enum", ValueType.enum) ∈ marks := by simp [marks]
    rw [spelled, String.toList_append]
    exact (parse_named listed (tight id rfl)).trans (only id).symm
  | record id =>
    have listed : ("record", ValueType.record) ∈ marks := by simp [marks]
    rw [spelled, String.toList_append]
    exact (parse_named listed (tight id rfl)).trans (only id).symm
  | array item ih =>
    have brackets := parse_brackets (c := c) (item.spelled name).toList gap_nil gap_nil
    rw [List.append_nil, List.append_nil] at brackets
    refine Iff.trans ?_ (ih tight)
    rw [spelled, String.toList_append, show "[]".toList = ['[', ']'] from rfl, brackets]
    cases parse c (item.spelled name).toList <;> simp

theorem tight_text (id : TypeId) : Tight id.text := by
  have ends : id.text.toList = ("TypeId(" ++ id.index.repr).toList ++ [')'] := String.toList_append
  constructor
  · rw [ends, List.getLast?_concat]
    rintro _ ⟨⟩
    rfl
  · rw [ends]
    intro brackets
    have same := brackets.getLast (by decide)
    rw [List.getLast_concat] at same
    cases same

def palette : Catalog := .ofDecls
  [Catalog.rootDecl,
    ⟨⟨1⟩, "acme.Color", .enumeration, [], some ⟨Catalog.root, []⟩, [], none, false, true⟩,
    ⟨⟨2⟩, " odd: [] mark", .recordKind, [], none, [], none, false, true⟩]
  []
  []

theorem palette_built : palette.Built :=
  (Catalog.Built.initial.define { name := "acme.Color", flavor := .enumeration }).define
    { name := " odd: [] mark", flavor := .recordKind }

theorem palette_tight : ∀ decl ∈ palette.types, Tight decl.name := by decide

/-- A text is read if its base denotes something; else its base is what the error tells. A value type
    that is written with the names of its types reads back. Its own text has their ids instead, which
    read back only if they happen to be the names. -/
theorem parse_accepts_grammar (built : c.Built) :
    (∀ text v, parse c text = .ok v ↔
      ∃ base pairs inner, Layout text base pairs ∧ Denotes c base inner ∧ v = arrays pairs inner) ∧
    (∀ text, ∃ base pairs, Layout text base pairs) ∧
    (∀ text base pairs, Layout text base pairs → (∀ inner, ¬Denotes c base inner) →
      parse c text = .error (.invalidValueType (String.ofList base))) ∧
    (∀ v, (∀ id ∈ v.named?, ∃ decl, c.type? id = some decl ∧ Tight decl.name) →
      parse c (v.spelled c.nameOf).toList = .ok v) ∧
    (∀ v, parse c v.text.toList = .ok v ↔ ∀ id ∈ v.named?, c.lookup id.text = some id) := by
  refine ⟨fun text v => parse_eq_ok_iff, exists_layout, fun text base pairs layout => layout.refused,
    fun v named => ?_, fun v => ?_⟩
  · refine (parse_spelled fun id there => ?_).mpr fun id there => ?_
    · obtain ⟨decl, found, tight⟩ := named id there
      exact Catalog.nameOf_of_found found ▸ tight
    · obtain ⟨decl, found, _⟩ := named id there
      exact built.lookup_nameOf found
  · rw [text_eq_spelled]
    exact parse_spelled fun id _ => tight_text id

theorem palette_accepts :
    palette.Built ∧
    parse palette "enum:acme.Color[]".toList = .ok (.array (.enum ⟨1⟩)) ∧
    parse palette "\trecord: odd: [] mark []".toList = .ok (.array (.record ⟨2⟩)) ∧
    parse palette " enum:acme.Colour [] ".toList =
      .error (.invalidValueType "enum:acme.Colour") := by
  obtain ⟨reads, _, fails, named, _⟩ := parse_accepts_grammar palette_built
  have tab : Gap ['\t'] := by decide
  have blank : Gap [' '] := by decide
  refine ⟨palette_built, named (.array (.enum ⟨1⟩)) ?_, ?_, ?_⟩
  · rintro _ ⟨⟩
    exact ⟨_, rfl, palette_tight _ (by decide)⟩
  · have alone : Bracketed "record: odd: [] mark".toList 0 "\trecord: odd: [] mark".toList :=
      .base tab gap_nil
    have layout : Layout _ _ 1 := ⟨by decide, by decide, alone.pair blank gap_nil⟩
    have known : palette.lookup " odd: [] mark" = some ⟨2⟩ := by decide
    have denotes : Denotes palette ("record".toList ++ ':' :: " odd: [] mark".toList) (.record ⟨2⟩) :=
      .named (by simp [marks]) known
    exact (reads _ _).mpr ⟨_, 1, .record ⟨2⟩, layout, denotes, rfl⟩
  · have alone : Bracketed "enum:acme.Colour".toList 0 " enum:acme.Colour".toList :=
      .base blank gap_nil
    have layout : Layout _ _ 1 := ⟨by decide, by decide, alone.pair blank blank⟩
    refine fails _ _ _ layout fun inner denotes => ?_
    have read := parseBase_of_denotes denotes
    cases read

theorem palette_shows_ids :
    palette.Built ∧
    (∀ id ∈ (ValueType.enum ⟨1⟩).named?, ∃ decl, palette.type? id = some decl ∧ Tight decl.name) ∧
    parse palette (ValueType.enum ⟨1⟩).text.toList = .error (.invalidValueType "enum:TypeId(1)") := by
  refine ⟨palette_built, ?_, ?_⟩
  · rintro _ ⟨⟩
    exact ⟨_, rfl, palette_tight _ (by decide)⟩
  · have shown : (ValueType.enum ⟨1⟩).text = "enum:TypeId(1)" := rfl
    rw [shown, parse_base (by decide)]
    rfl

end Lineage.ValueType
