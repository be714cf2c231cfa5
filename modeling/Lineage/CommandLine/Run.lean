import Lineage.CommandLine.Args
import Lineage.CommandLine.Report
import Lineage.Element.Name
import Lineage.Element.Syntax
import Lineage.Model.Decode
import Lineage.Model.Load
import Lineage.Scan.Run

namespace Lineage.CommandLine

structure Environment where
  /-- The text of a file, or why it cannot be read. -/
  readFile : String → Except String String
  /-- Colors are forbidden whatever the arguments say. -/
  noColor : Bool
  /-- Whether the terminal takes colors when the arguments leave it open. -/
  terminalColor : Bool

inductive Reply where
  | success (output : String)
  /-- What went wrong, then its causes. -/
  | failure (messages : List String)
  | misuse

def Reply.exitCode : Reply → UInt32
  | .success _ => 0
  | .failure _ => 1
  | .misuse => 2

def useColor (env : Environment) (choice : Option String) : Bool :=
  if env.noColor then false
  else match choice with
    | some "always" => true
    | some "never" => false
    | _ => env.terminalColor

def invalidSettings : String := "the text does not describe settings"

def loadSettings (env : Environment) : Option String → Except (List String) Settings
  | none => .ok {}
  | some path =>
    let loading := "failed to load config " ++ path
    match env.readFile path with
    | .error cause => .error [loading, "Failed to read config " ++ path ++ ": " ++ cause, cause]
    | .ok text =>
      match Settings.ofText? text with
      | some settings => .ok settings
      | none => .error [loading, "Invalid config: " ++ invalidSettings, invalidSettings]

def loadCatalog (env : Environment) (path : String) : Except (List String) Catalog :=
  match env.readFile path with
  | .error cause => .error ["failed to read model " ++ path, cause]
  | .ok text =>
    let invalid := "invalid model " ++ path
    match Model.ofText? text with
    | none => .error [invalid, ModelError.malformed.message, ModelError.malformedDetail]
    | some model => (Model.load model).mapError fun e => [invalid, e.message]

def levelReport (c : Catalog) (level : Level) : List Span :=
  [.info ("  [" ++ level.index.repr ++ "] "), .plain (c.elementName level.source), .newline] ++
    level.records.flatMap fun r =>
      [.plain "      ", .success (r.render c.naming), .newline]

def scanReport (s : Scanner) (element : String) (strategy : Strategy) :
    Except (List String) (List Span) := do
  let source ← (Element.ofText s.catalog element).mapError (·.messages)
  let scan : Scan (List Level) (List Level) := ⟨s, .levels, fun _ => false⟩
  let levels := (scan.run strategy source .empty).answer.getD []
  pure ([.bold (s.catalog.elementName source), .dim (" (" ++ strategy.name ++ ")"), .newline] ++
    (if levels.isEmpty then [.warning "  no records found", .newline] else []) ++
    levels.flatMap (levelReport s.catalog))

def knownEmptyReport (s : Scanner) (element : String) (strategy : Strategy) :
    Except (List String) (List Span) := do
  let source ← (Element.ofText s.catalog element).mapError (·.messages)
  let empty := (s.isKnownEmpty strategy source .empty).answer.getD false
  pure [.plain (s.catalog.elementName source), .dim (" (" ++ strategy.name ++ "): "),
    if empty then .success "known empty" else .warning "may have records", .newline]

def accessorReport (c : Catalog) (t : AttributeTable) (index : Nat) (a : Accessor) : List Span :=
  [.info ("  " ++ "".pushn ' ' (2 - index.repr.length) ++ index.repr ++ " "), .bold a.name,
    .plain (": " ++ a.type.text)] ++
    (match a.default with
      | some value => [.dim (" = " ++ value.render c.naming)]
      | none => []) ++
    (if t.canFail? index = some true then [.warning " (deferred)"] else []) ++ [.newline]

def tableFlags (t : AttributeTable) : List String :=
  (if t.isValueOnly then ["value-only"] else []) ++
    (if t.hasDefault then ["defaults"] else []) ++
    (if t.hasNested then ["nested"] else [])

def attributesReport (s : Scanner) (kind : String) : Except (List String) (List Span) := do
  let id ← match s.catalog.lookup kind with
    | some id => .ok id
    | none => .error ["unknown type '" ++ kind ++ "'"]
  let table ← match (s.attributes id).run .empty with
    | .ok table _ => .ok table
    | .error e _ => .error ["failed to compute attributes of " ++ kind, e.message]
  let title : List Span := [.bold kind, .newline]
  if table.isEmpty then pure (title ++ [.warning "  no attributes", .newline])
  else
    let flags := tableFlags table
    pure (title ++
      table.accessors.zipIdx.flatMap (fun (a, index) => accessorReport s.catalog table index a) ++
      (if flags.isEmpty then []
       else [.dim ("  [" ++ ", ".intercalate flags ++ "]"), .newline]))

def report (env : Environment) (settings : Settings) :
    Command → Except (List String) (List Span)
  | .scan model element strategy => do
    let catalog ← loadCatalog env model
    scanReport ⟨catalog, settings⟩ element strategy
  | .attributes model kind => do
    let catalog ← loadCatalog env model
    attributesReport ⟨catalog, settings⟩ kind
  | .knownEmpty model element strategy => do
    let catalog ← loadCatalog env model
    knownEmptyReport ⟨catalog, settings⟩ element strategy

def answer (env : Environment) : Request → Reply
  | .version => .success versionText
  | .help topic => .success (helpText topic)
  | .misuse => .misuse
  | .run options command =>
    match (do report env (← loadSettings env options.config) command) with
    | .ok spans => .success (render (useColor env options.color) spans)
    | .error messages => .failure messages

end Lineage.CommandLine
