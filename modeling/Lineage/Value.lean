import Lineage.Ident
import Lineage.Decimal.Shortest
import Lineage.Text.Quoted

namespace Lineage

mutual

inductive Value where
  | bool (b : Bool)
  | int (i : Int)
  | float (x : Float)
  | string (s : String)
  | type (id : TypeId)
  | enum (id : TypeId) (constant : String)
  | record (r : Record)
  | array (items : List Value)

structure Record where
  kind : TypeId
  values : List (String × Value)

end

instance : Inhabited Value := ⟨.bool false⟩
instance : Inhabited Record := ⟨⟨default, []⟩⟩

mutual

/-- Equality as the values themselves define it: a NaN differs from itself, the two zeros agree, and
    the order of a record's values counts. -/
def Value.beq : Value → Value → Bool
  | .bool a, .bool b => a == b
  | .int a, .int b => a == b
  | .float a, .float b => a == b
  | .string a, .string b => a == b
  | .type a, .type b => a == b
  | .enum a c, .enum b d => a == b && c == d
  | .record a, .record b => a.beq b
  | .array as, .array bs => Value.beqItems as bs
  | _, _ => false
termination_by structural a => a

def Value.beqItems : List Value → List Value → Bool
  | [], [] => true
  | a :: as, b :: bs => a.beq b && Value.beqItems as bs
  | _, _ => false
termination_by structural as => as

def Record.beq : Record → Record → Bool
  | ⟨k, as⟩, ⟨l, bs⟩ => k == l && Record.beqValues as bs
termination_by structural a => a

def Record.beqValues : List (String × Value) → List (String × Value) → Bool
  | [], [] => true
  | a :: as, b :: bs => Record.beqValue a b && Record.beqValues as bs
  | _, _ => false
termination_by structural as => as

def Record.beqValue : String × Value → String × Value → Bool
  | (n, a), (m, b) => n == m && a.beq b
termination_by structural a => a

end

instance : BEq Value := ⟨Value.beq⟩
instance : BEq Record := ⟨Record.beq⟩

mutual

/-- The types a value names, from left to right: those inside arrays count, those inside nested
    records do not, since a nested record is read on its own. -/
def Value.typeRefs : Value → List TypeId
  | .type id => [id]
  | .enum id _ => [id]
  | .array items => Value.typeRefsOf items
  | .bool _ | .int _ | .float _ | .string _ | .record _ => []
termination_by structural v => v

def Value.typeRefsOf : List Value → List TypeId
  | [] => []
  | v :: vs => v.typeRefs ++ Value.typeRefsOf vs
termination_by structural vs => vs

end

def setNamed (name : String) (value : α) : List (String × α) → List (String × α)
  | [] => [(name, value)]
  | (n, v) :: rest =>
    if n = name then (n, value) :: rest else (n, v) :: setNamed name value rest

def findNamed (name : String) (values : List (String × α)) : Option α :=
  (values.find? fun (n, _) => n = name).map fun (_, v) => v

namespace Record

def ofKind (kind : TypeId) : Record := ⟨kind, []⟩

def set (r : Record) (name : String) (value : Value) : Record :=
  { r with values := setNamed name value r.values }

def value? (r : Record) (name : String) : Option Value := findNamed name r.values

end Record

structure Rendering where
  typeText : TypeId → String
  noValues : String

def Rendering.byId : Rendering := ⟨TypeId.text, "()"⟩

mutual

def Value.render (r : Rendering) : Value → String
  | .bool b => if b then "true" else "false"
  | .int i => i.repr
  | .float x => Decimal.floatText x
  | .string s => Text.quoted s
  | .type id => r.typeText id
  | .enum id constant => r.typeText id ++ "." ++ constant
  | .record record => record.render r
  | .array items => "[" ++ ", ".intercalate (Value.renderItems r items) ++ "]"
termination_by structural v => v

def Value.renderItems (r : Rendering) : List Value → List String
  | [] => []
  | v :: vs => v.render r :: Value.renderItems r vs
termination_by structural vs => vs

def Record.render (r : Rendering) : Record → String
  | ⟨kind, values⟩ => "@" ++ r.typeText kind ++
      if values.isEmpty then r.noValues
      else "(" ++ ", ".intercalate (Record.renderValues r values) ++ ")"
termination_by structural record => record

def Record.renderValues (r : Rendering) : List (String × Value) → List String
  | [] => []
  | v :: vs => Record.renderValue r v :: Record.renderValues r vs
termination_by structural vs => vs

def Record.renderValue (r : Rendering) : String × Value → String
  | (name, value) => name ++ "=" ++ value.render r
termination_by structural v => v

end

end Lineage
