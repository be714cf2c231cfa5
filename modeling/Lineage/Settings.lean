import Lineage.Text.Cut
import Lineage.Toml.Reader

namespace Lineage

inductive FailurePolicy where
  | ignore
  | log
deriving DecidableEq, Repr, Inhabited

structure Settings where
  /-- Types whose name begins so are plain: they are taken to carry no records. -/
  plainPrefixes : List String := ["lang."]
  /-- Types that are plain whatever their name begins with. -/
  excludedTypes : List String := ["lang.Ordered"]
  /-- Records of kinds whose name begins so are dropped. -/
  ignorablePrefixes : List String := ["lang."]
  failurePolicy : FailurePolicy := .log
deriving DecidableEq, Repr, Inhabited

namespace FailurePolicy

def name : FailurePolicy → String
  | .ignore => "ignore"
  | .log => "log"

def ofName? (word : String) : Option FailurePolicy :=
  [ignore, log].find? (·.name = word)

def ofToml? : Toml → Option FailurePolicy
  | .string word => ofName? word
  | .inline [(word, value)] | .table ⟨_, [(word, value)]⟩ =>
    match value with
    | .array [] | .inline [] | .table ⟨_, []⟩ => ofName? word
    | _ => none
  | _ => none

end FailurePolicy

namespace Settings

def isPlainName (s : Settings) (name : String) : Bool :=
  s.plainPrefixes.any (Text.startsWith · name) || s.excludedTypes.contains name

def isIgnorableName (s : Settings) (kind : String) : Bool :=
  s.ignorablePrefixes.any (Text.startsWith · kind)

def texts? : Toml → Option (List String)
  | .array items => items.mapM fun item => match item with
    | .string s => some s
    | _ => none
  | _ => none

def change? (s : Settings) : String × Toml → Option Settings
  | ("plain_type_prefixes", value) => do
    pure { s with plainPrefixes := ← texts? value }
  | ("excluded_types", value) => do
    pure { s with excludedTypes := ← texts? value }
  | ("ignorable_kind_prefixes", value) => do
    pure { s with ignorablePrefixes := ← texts? value }
  | ("failure_policy", value) => do
    pure { s with failurePolicy := ← FailurePolicy.ofToml? value }
  | _ => none

def ofText? (text : String) : Option Settings := do
  let document ← Toml.read? text
  document.entries.foldlM change? {}

end Settings

end Lineage
