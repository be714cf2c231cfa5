import Lineage.Json.Basic

namespace Lineage.Json

/-- Reads a value of some shape where so many more arrays and objects may be open at once. -/
abbrev Decoder (α : Type) := Nat → Json → Option α

def maxOpen : Nat := 127

namespace Decoder

def text : Decoder String
  | _, .string raw => decode? raw
  | _, _ => none

def flag : Decoder Bool
  | _, .bool b => some b
  | _, _ => none

def integer : Decoder Int
  | _, .number n => n.int?
  | _, _ => none

def double : Decoder Float
  | _, .number n => n.float?
  | _, _ => none

def list (item : Decoder α) : Decoder (List α)
  | room + 1, .array items => items.mapM (item room)
  | _, _ => none

def nullable (value : Decoder α) : Decoder (Option α)
  | _, .null => some none
  | room, j => some <$> value room j

def word (words : List (String × α)) : Decoder α
  | _, .string raw => do
    let name ← decode? raw
    words.lookup name
  | _ + 1, .object [(key, .null)] => do
    let name ← decode? key
    words.lookup name
  | _, _ => none

end Decoder

def decodedEntries (entries : List (List Char × Json)) : Option (List (String × Json)) :=
  entries.mapM fun (key, value) => do
    let name ← decode? key
    pure (name, value)

/-- The fields of a structure among those it has: from an object, where unknown keys are passed over
    and no field may stand twice, or from an array in the order of declaration. -/
def fields? (names : List String) : Json → Option (List (String × Json))
  | .array items => if items.length ≤ names.length then some (names.zip items) else none
  | .object entries => do
    let entries ← decodedEntries entries
    let known := entries.filter fun (name, _) => names.contains name
    if (known.map (·.1)).Nodup then pure known else none
  | _ => none

def required (fields : List (String × Json)) (room : Nat) (name : String) (d : Decoder α) :
    Option α := do
  let value ← fields.lookup name
  d room value

def defaulted (fields : List (String × Json)) (room : Nat) (name : String) (d : Decoder α)
    (default : α) : Option α :=
  match fields.lookup name with
  | some value => d room value
  | none => some default

def isSound : Nat → Json → Bool
  | _, .null => true
  | _, .bool _ => true
  | _, .number n => n.float?.isSome
  | _, .string raw => (decode? raw).isSome
  | room + 1, .array items => items.all (isSound room)
  | room + 1, .object entries =>
    entries.all fun (key, value) => (decode? key).isSome && isSound room value
  | 0, .array _ => false
  | 0, .object _ => false

end Lineage.Json
