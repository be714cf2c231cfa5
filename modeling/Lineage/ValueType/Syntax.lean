import Lineage.Catalog.Basic
import Lineage.Model.Error
import Lineage.Text.Blank
import Lineage.Text.Cut

namespace Lineage.ValueType

def keywords : List (String × ValueType) :=
  [("void", .void), ("bool", .bool), ("int", .int), ("float", .float), ("string", .string),
   ("type", .type)]

def parseBase (c : Catalog) (text : List Char) : Except ModelError ValueType :=
  let invalid := ModelError.invalidValueType (String.ofList text)
  match findNamed (String.ofList text) keywords with
  | some keyword => .ok keyword
  | none =>
    match Text.cut ':' text with
    | none => .error invalid
    | some (what, name) =>
      match c.lookup (String.ofList name) with
      | none => .error invalid
      | some id =>
        if what = "enum".toList then .ok (.enum id)
        else if what = "record".toList then .ok (.record id)
        else .error invalid

def parse (c : Catalog) (text : List Char) : Except ModelError ValueType :=
  match array : Text.dropEnding? ['[', ']'] (Text.trim text) with
  | some item =>
    have : item.length < text.length := by
      have shorter := Text.length_of_dropEnding? array
      have trimmed := Text.length_trim_le text
      simp only [List.length_cons, List.length_nil] at shorter
      omega
    .array <$> parse c item
  | none => parseBase c (Text.trim text)
termination_by text.length

theorem parse_array {c : Catalog} {text item : List Char}
    (array : Text.dropEnding? ['[', ']'] (Text.trim text) = some item) :
    parse c text = .array <$> parse c item := by
  rw [parse]
  split
  · rename_i same found
    rw [array] at found
    cases found
    rfl
  · rename_i other
    rw [array] at other
    cases other

theorem parse_base {c : Catalog} {text : List Char}
    (base : Text.dropEnding? ['[', ']'] (Text.trim text) = none) :
    parse c text = parseBase c (Text.trim text) := by
  rw [parse]
  split
  · rename_i item found
    rw [base] at found
    cases found
  · rfl

def ofText (c : Catalog) (text : String) : Except ModelError ValueType := parse c text.toList

end Lineage.ValueType
