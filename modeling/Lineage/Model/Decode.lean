import Lineage.Json.Decode
import Lineage.Json.Reader
import Lineage.Model.Basic

namespace Lineage.Model

open Json Json.Decoder

def putSorted [DecidableEq κ] (before : κ → κ → Bool) (key : κ) (value : α) :
    List (κ × α) → List (κ × α)
  | [] => [(key, value)]
  | (k, v) :: rest =>
    if k = key then (key, value) :: rest
    else if before key k then (key, value) :: (k, v) :: rest
    else (k, v) :: putSorted before key value rest

def sortedByKey [DecidableEq κ] (before : κ → κ → Bool) (entries : List (κ × α)) :
    List (κ × α) :=
  entries.foldl (fun sorted (key, value) => putSorted before key value sorted) []

def decodeEnum : Decoder ValueSpec
  | room + 1, j => do
    let fields ← fields? ["type", "constant"] j
    pure (.enum (← required fields room "type" text) (← required fields room "constant" text))
  | _, _ => none

mutual

def decodeValue : Nat → Json → Option ValueSpec
  | room + 1, .object [(key, j)] => do
    match ← decode? key with
    | "bool" => .bool <$> flag room j
    | "int" => .int <$> integer room j
    | "float" => .float <$> double room j
    | "str" => .string <$> text room j
    | "type" => .type <$> text room j
    | "enum" => decodeEnum room j
    | "record" => .record <$> decodeRecord room j
    | "array" => .array <$> decodeItems room j
    | _ => none
  | _, _ => none

def decodeItems : Nat → Json → Option (List ValueSpec)
  | room + 1, .array items => items.mapM (decodeValue room)
  | _, _ => none

def decodeRecord : Nat → Json → Option RecordSpec
  | room + 1, j => do
    let fields ← fields? ["kind", "values"] j
    let kind ← required fields room "kind" text
    match fields.lookup "values" with
    | none => pure ⟨kind, []⟩
    | some values => .mk kind <$> decodeValues room values
  | _, _ => none

def decodeValues : Nat → Json → Option (List (String × ValueSpec))
  | room + 1, .object entries => do
    let entries ← decodedEntries entries
    let values ← entries.mapM fun (name, j) => do
      pure (name, ← decodeValue room j)
    pure (sortedByKey (fun a b => a < b) values)
  | _, _ => none

end

def position? (key : List Char) : Option Nat :=
  match key with
  | [] => none
  | first :: rest =>
    let value := JsonNumber.digitsValue key
    if key.all Char.isDigit && (rest.isEmpty || first != '0') && value < Nat.pow 2 64 then some value
    else none

def decodeParamRecords : Decoder (List (Nat × List RecordSpec))
  | room + 1, .object entries => do
    let entries ← entries.mapM fun (key, j) => do
      pure (← position? key, ← list decodeRecord room j)
    pure (sortedByKey (fun a b => a < b) entries)
  | _, _ => none

def decodeSuper : Decoder SuperSpec
  | _, .string raw => do
    pure ⟨← decode? raw, []⟩
  | room, .object entries =>
    if isSound room (.object entries) then do
      let fields ← fields? ["name", "args"] (.object entries)
      pure ⟨← required fields maxOpen "name" text, ← defaulted fields maxOpen "args" (list text) []⟩
    else none
  | _, _ => none

def flavors : List (String × Flavor) :=
  [("class", .classType), ("interface", .interface), ("annotation", .recordKind),
   ("enum", .enumeration)]

def visibilities : List (String × Visibility) :=
  [("public", .everyone), ("protected", .subtypes), ("package", .package), ("private", .owner)]

def decodeParam : Decoder ParamSpec
  | room + 1, j => do
    let fields ← fields? ["name", "bound"] j
    pure ⟨← required fields room "name" text, ← defaulted fields room "bound" (nullable text) none⟩
  | _, _ => none

def memberFields : List String :=
  ["name", "visibility", "params", "returns", "default", "bridge_of", "annotations",
   "parameter_annotations"]

def decodeMember : Decoder MemberSpec
  | room + 1, j => do
    let fields ← fields? memberFields j
    pure {
      name := ← required fields room "name" text
      visibility := ← defaulted fields room "visibility" (word visibilities) .everyone
      params := ← defaulted fields room "params" (list text) []
      returns := ← defaulted fields room "returns" (nullable text) none
      default := ← defaulted fields room "default" (nullable decodeValue) none
      bridgeOf := ← defaulted fields room "bridge_of" (nullable text) none
      records := ← defaulted fields room "annotations" (list decodeRecord) []
      paramRecords := ← defaulted fields room "parameter_annotations" decodeParamRecords [] }
  | _, _ => none

def typeFields : List String :=
  ["name", "kind", "type_params", "extends", "implements", "enclosing", "inherited", "absent",
   "annotations", "members"]

def decodeType : Decoder TypeSpec
  | room + 1, j => do
    let fields ← fields? typeFields j
    pure {
      name := ← required fields room "name" text
      flavor := ← defaulted fields room "kind" (word flavors) .classType
      params := ← defaulted fields room "type_params" (list decodeParam) []
      superclass := ← defaulted fields room "extends" (nullable decodeSuper) none
      interfaces := ← defaulted fields room "implements" (list decodeSuper) []
      enclosing := ← defaulted fields room "enclosing" (nullable text) none
      inherited := ← defaulted fields room "inherited" flag false
      absent := ← defaulted fields room "absent" flag false
      records := ← defaulted fields room "annotations" (list decodeRecord) []
      members := ← defaulted fields room "members" (list decodeMember) [] }
  | _, _ => none

def decode : Decoder Model
  | room + 1, j => do
    let fields ← fields? ["types"] j
    pure ⟨← defaulted fields room "types" (list decodeType) []⟩
  | _, _ => none

def ofJson? (j : Json) : Option Model := decode maxOpen j

def ofText? (text : String) : Option Model := do
  let j ← Json.read? text
  ofJson? j

end Lineage.Model
