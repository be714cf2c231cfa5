import Lineage.CommandLine.Run
import Lineage.Proofs.Model.Accepted
import Lineage.Proofs.Pairing.Operations
import Lineage.Proofs.Pairing.Texts
import Lineage.Proofs.Scan.Levels

namespace Lineage

namespace Pairing

variable {p : Pairing} {c d : Catalog} {s u : Scanner}

structure Level (p : Pairing) (x y : Lineage.Level) : Prop where
  index : x.index = y.index
  source : p.element x.source y.source
  records : List.Forall₂ p.record x.records y.records

theorem levels_related {events others : List Event} (happened : List.Forall₂ p.event events others) :
    List.Forall₂ p.Level (Event.levels events) (Event.levels others) := by
  apply List.rel_filterMap (R := fun x y => x.index = y.index ∧ p.element x.source y.source ∧
    List.Forall₂ p.slot x.slots y.slots)
  · rintro ⟨index, source, slots⟩ ⟨_, source', slots'⟩ ⟨rfl, paired, related⟩
    have records : List.Forall₂ p.record (slots.filterMap id) (slots'.filterMap id) :=
      List.rel_filterMap (fun _ _ slot => slot) related
    unfold Delivery.level? Level.of?
    simp only [isEmpty_eq_of_forall₂ records]
    split
    · exact .none
    · exact .some ⟨rfl, paired, records⟩
  · apply List.rel_filterMap _ happened
    intro x y related
    cases x with
    | enter i =>
      cases y with
      | enter j => exact .none
      | records j f others => cases related
      | failure f y => cases related
    | records i e slots =>
      cases y with
      | enter j => cases related
      | records j f others => exact .some related
      | failure f y => cases related
    | failure e x =>
      cases y with
      | enter j => cases related
      | records j f others => cases related
      | failure f y => exact .none

section

open CommandLine

variable (legible : p.Legible s.catalog u.catalog)
include legible

theorem levelReport_related {x y : Lineage.Level} (related : p.Level x y) :
    levelReport s.catalog x = levelReport u.catalog y := by
  have lines := map_eq_of_forall₂ related.records fun _ _ same =>
    congrArg (fun text => [Span.plain "      ", .success text, .newline]) (legible.renderRecord same)
  unfold levelReport
  rw [related.index, legible.elementName related.source, List.flatMap_def, lines]
  rfl

end

/-- The levels that a scan collects where nothing is rejected and nothing remembered. -/
theorem scanned_related (scanners : p.Scanners s u) (strategy : Strategy) {e f : Element}
    (paired : p.element e f) :
    List.Forall₂ p.Level
      (((Scan.mk s .levels fun _ => false).run strategy e .empty).answer.getD [])
      (((Scan.mk u .levels fun _ => false).run strategy f .empty).answer.getD []) := by
  have terrains : p.Terrains (Scan.mk s .levels fun _ => false).terrain
      (Scan.mk u .levels fun _ => false).terrain := ⟨scanners, fun _ => rfl⟩
  have found : ((Scan.mk s .levels fun _ => false).run strategy e .empty).answer = some _ :=
    Scan.answer_run_levels s (fun _ => false) [] strategy e
  have foundToo : ((Scan.mk u .levels fun _ => false).run strategy f .empty).answer = some _ :=
    Scan.answer_run_levels u (fun _ => false) [] strategy f
  rw [found, foundToo, Option.getD_some, Option.getD_some]
  exact levels_related (terrains.events_of_scans rfl strategy paired)

section

open CommandLine

variable (legible : p.Legible s.catalog u.catalog) (scanners : p.Scanners s u)
include legible scanners

theorem scanReport_related (element : String) (strategy : Strategy) :
    Agree (fun _ _ => True) Eq (scanReport s element strategy) (scanReport u element strategy) := by
  apply (legible.parseElement element.toList).mapError.bind
  intro source source' _ _ paired
  have levels := scanned_related scanners strategy paired
  apply Agree.pure
  rw [legible.elementName paired, isEmpty_eq_of_forall₂ levels, List.flatMap_def, List.flatMap_def,
    map_eq_of_forall₂ levels fun _ _ => levelReport_related legible]

theorem knownEmptyReport_related (element : String) (strategy : Strategy) :
    Agree (fun _ _ => True) Eq (knownEmptyReport s element strategy)
      (knownEmptyReport u element strategy) := by
  apply (legible.parseElement element.toList).mapError.bind
  intro source source' _ _ paired
  have first := (s.isKnownEmpty_seen strategy source (.empty s)).1
  have second := (u.isKnownEmpty_seen strategy source' (.empty u)).1
  have agree := scanners.freshKnownEmpty strategy paired
  have same : (s.isKnownEmpty strategy source .empty).answer =
      (u.isKnownEmpty strategy source' .empty).answer := by
    have answer := congrArg Prod.fst first
    have answerToo := congrArg Prod.fst second
    generalize s.freshKnownEmpty strategy source = left at agree answer
    generalize u.freshKnownEmpty strategy source' = right at agree answerToo
    cases agree with
    | error _ => exact answer.trans answerToo.symm
    | ok equal => exact answer.trans (equal ▸ answerToo.symm)
  apply Agree.pure
  rw [legible.elementName paired, same]

end

end Pairing

namespace Model

variable {m n : Model} {c d : Catalog}

theorem legible_of_loaded (loaded : Loaded m c) (loadedToo : Loaded n d)
    (perm : m.types.Perm n.types) :
    ∃ p : Pairing, p.Legible c d := by
  let p : Pairing := .byName c d loaded.sound loadedToo.sound (fun _ _ => True) fun _ _ => True
  have joins : p.Joins c d := Pairing.byName_joins ..
  have fits : p.Fits c d := fits_of_loaded joins loaded loadedToo perm (fun _ _ _ => trivial)
    fun _ _ _ _ _ _ _ => trivial
  have names := names_joined joins loaded loadedToo perm
  refine ⟨p, fits, names.lookup, ?_, ?_⟩
  · intro a b paired unknown
    obtain ⟨name, there, _⟩ := joins.type_iff.mp paired
    obtain ⟨decl, known, _⟩ := Catalog.type?_of_name there
    rw [unknown] at known
    cases known
  · intro x y paired unknown
    obtain ⟨decl, _, known, _⟩ := member_joined joins loaded loadedToo perm paired
    rw [unknown] at known
    cases known

end Model

namespace CommandLine

def Reply.printed : Reply → String
  | .success output => output
  | .failure _ | .misuse => ""

structure Reply.Same (r s : Reply) : Prop where
  exitCode : r.exitCode = s.exitCode
  printed : r.printed = s.printed

def Environment.Holds (env : Environment) (path : String) (m : Model) : Prop :=
  ∃ text, env.readFile path = .ok text ∧ Model.ofText? text = some m

theorem loadCatalog_of_holds {env : Environment} {path : String} {m : Model} {c : Catalog}
    (holds : env.Holds path m) (load : m.load = .ok c) : loadCatalog env path = .ok c := by
  obtain ⟨text, read, decoded⟩ := holds
  unfold loadCatalog
  simp only [read, decoded, load]
  rfl

theorem answer_same {env : Environment} {options : Options} {command other : Command}
    (agree : ∀ settings, Agree (fun _ _ => True) Eq (report env settings command)
      (report env settings other)) :
    (answer env (.run options command)).Same (answer env (.run options other)) := by
  have reports : Agree (fun _ _ => True) Eq (do report env (← loadSettings env options.config) command)
      (do report env (← loadSettings env options.config) other) := by
    cases loadSettings env options.config with
    | error messages => exact .error trivial
    | ok settings => exact agree settings
  simp only [answer]
  generalize (do report env (← loadSettings env options.config) command) = first at reports ⊢
  generalize (do report env (← loadSettings env options.config) other) = second at reports ⊢
  cases reports with
  | error _ => exact ⟨rfl, rfl⟩
  | ok same => exact same ▸ ⟨rfl, rfl⟩

/-- A model whose types are listed in another order can be loaded as well, and a scan and the question
    whether it is certain to find nothing print the same and end the same. -/
theorem answers_of_permuted_types (m n : Model) (c : Catalog) (load : m.load = .ok c)
    (perm : m.types.Perm n.types) :
    (∃ d, n.load = .ok d) ∧
    ∀ env path other, Environment.Holds env path m → env.Holds other n →
      ∀ options element strategy,
        (answer env (.run options (.scan path element strategy))).Same
          (answer env (.run options (.scan other element strategy))) ∧
        (answer env (.run options (.knownEmpty path element strategy))).Same
          (answer env (.run options (.knownEmpty other element strategy))) := by
  obtain ⟨d, loadToo⟩ := Model.load_of_perm load perm
  refine ⟨⟨d, loadToo⟩, ?_⟩
  intro env path other holds holdsToo options element strategy
  obtain ⟨p, legible⟩ :=
    Model.legible_of_loaded (Model.loaded_of_load load) (Model.loaded_of_load loadToo) perm
  have scanners (settings : Settings) : p.Scanners ⟨c, settings⟩ ⟨d, settings⟩ := ⟨legible.fits, rfl⟩
  constructor
  · apply answer_same
    intro settings
    simp only [report]
    rw [loadCatalog_of_holds holds load, loadCatalog_of_holds holdsToo loadToo]
    exact Pairing.scanReport_related legible (scanners settings) element strategy
  · apply answer_same
    intro settings
    simp only [report]
    rw [loadCatalog_of_holds holds load, loadCatalog_of_holds holdsToo loadToo]
    exact Pairing.knownEmptyReport_related legible (scanners settings) element strategy

def upward : Model where
  types := [{ name := "Sub", superclass := some ⟨"Base", []⟩ }, { name := "Base" }]

def downward : Model where
  types := [{ name := "Base" }, { name := "Sub", superclass := some ⟨"Base", []⟩ }]

def upwardCatalog : Catalog := .ofDecls
  [Catalog.rootDecl,
    ⟨⟨1⟩, "Sub", .classType, [], some ⟨⟨2⟩, []⟩, [], none, false, true⟩,
    ⟨⟨2⟩, "Base", .classType, [], some ⟨Catalog.root, []⟩, [], none, false, true⟩]
  []
  []

def upwardText : String :=
  "\x7b\"types\":[\x7b\"name\":\"Sub\",\"extends\":\"Base\"\x7d,\x7b\"name\":\"Base\"\x7d]\x7d"

def downwardText : String :=
  "\x7b\"types\":[\x7b\"name\":\"Base\"\x7d,\x7b\"name\":\"Sub\",\"extends\":\"Base\"\x7d]\x7d"

def bothFiles : Environment where
  readFile path := .ok (if path = "upward" then upwardText else downwardText)
  noColor := true
  terminalColor := false

def subJson : Json :=
  .object [("name".toList, .string "Sub".toList), ("extends".toList, .string "Base".toList)]

def baseJson : Json := .object [("name".toList, .string "Base".toList)]

theorem upward_held : bothFiles.Holds "upward" upward := by
  have scanned : Json.scanValue (2 * upwardText.toList.length + 2) upwardText.toList =
      some (.object [("types".toList, .array [subJson, baseJson])], []) := by
    simp only [upwardText, String.reduceToList]
    cbv
  refine ⟨upwardText, rfl, ?_⟩
  simp only [Model.ofText?, Json.read?, scanned]
  rfl

theorem downward_held : bothFiles.Holds "downward" downward := by
  have scanned : Json.scanValue (2 * downwardText.toList.length + 2) downwardText.toList =
      some (.object [("types".toList, .array [baseJson, subJson])], []) := by
    simp only [downwardText, String.reduceToList]
    cbv
  refine ⟨downwardText, rfl, ?_⟩
  simp only [Model.ofText?, Json.read?, scanned]
  rfl

theorem answers_of_swapped_types :
    (∃ d, downward.load = .ok d) ∧
    (answer bothFiles (.run ⟨none, false, none⟩ (.scan "upward" "Sub" .superclass))).Same
      (answer bothFiles (.run ⟨none, false, none⟩ (.scan "downward" "Sub" .superclass))) := by
  have load : upward.load = .ok upwardCatalog := rfl
  obtain ⟨loadToo, same⟩ :=
    answers_of_permuted_types upward downward upwardCatalog load (.swap _ _ _)
  exact ⟨loadToo, (same _ _ _ upward_held downward_held _ _ _).1⟩

end CommandLine

end Lineage
