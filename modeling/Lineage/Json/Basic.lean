namespace Lineage

structure JsonNumber where
  negative : Bool
  whole : List Char
  fraction : Option (List Char)
  exponent : Option Int

/-- A JSON text. Strings and keys are kept as written between the quotes, and fields in the order
    they stand, repeated ones included: what a reader of the text does not use is never decoded. -/
inductive Json where
  | null
  | bool (b : Bool)
  | number (n : JsonNumber)
  | string (raw : List Char)
  | array (items : List Json)
  | object (fields : List (List Char × Json))

instance : Inhabited Json := ⟨.null⟩

namespace Json

def hexDigit? (c : Char) : Option Nat :=
  if '0' ≤ c ∧ c ≤ '9' then some (c.toNat - '0'.toNat)
  else if 'a' ≤ c ∧ c ≤ 'f' then some (c.toNat - 'a'.toNat + 10)
  else if 'A' ≤ c ∧ c ≤ 'F' then some (c.toNat - 'A'.toNat + 10)
  else none

def hexCode? (a b c d : Char) : Option Nat := do
  pure ((((← hexDigit? a) * 16 + (← hexDigit? b)) * 16 + (← hexDigit? c)) * 16 + (← hexDigit? d))

def shortEscape? : Char → Option Char
  | '"' => some '"'
  | '\\' => some '\\'
  | '/' => some '/'
  | 'b' => some (Char.ofNat 8)
  | 'f' => some (Char.ofNat 12)
  | 'n' => some '\n'
  | 'r' => some '\r'
  | 't' => some '\t'
  | _ => none

def units? : List Char → Option (List Nat)
  | [] => some []
  | '\\' :: 'u' :: a :: b :: c :: d :: rest => do
    pure ((← hexCode? a b c d) :: (← units? rest))
  | '\\' :: c :: rest => do
    pure ((← shortEscape? c).toNat :: (← units? rest))
  | c :: rest => do
    pure (c.toNat :: (← units? rest))

def joinHalves? : List Nat → Option (List Char)
  | [] => some []
  | high :: low :: rest =>
    if 0xd800 ≤ high ∧ high < 0xdc00 then
      if 0xdc00 ≤ low ∧ low < 0xe000 then do
        pure (Char.ofNat (0x10000 + (high - 0xd800) * 0x400 + (low - 0xdc00)) ::
          (← joinHalves? rest))
      else none
    else if 0xdc00 ≤ high ∧ high < 0xe000 then none
    else do
      pure (Char.ofNat high :: (← joinHalves? (low :: rest)))
  | [unit] => if 0xd800 ≤ unit ∧ unit < 0xe000 then none else some [Char.ofNat unit]

def decode? (raw : List Char) : Option String := do
  pure (String.ofList (← joinHalves? (← units? raw)))

end Json

namespace JsonNumber

def isInteger (n : JsonNumber) : Bool := n.fraction.isNone && n.exponent.isNone

def digitsValue (digits : List Char) : Nat :=
  digits.foldl (fun value c => value * 10 + (c.toNat - '0'.toNat)) 0

def int? (n : JsonNumber) : Option Int :=
  let size := digitsValue n.whole
  if !n.isInteger then none
  else if n.negative then if 0 < size ∧ size ≤ Nat.pow 2 63 then some (-(size : Int)) else none
  else if size < Nat.pow 2 63 then some size else none

structure Significand where
  value : Nat := 0
  dropped : Nat := 0
  places : Nat := 0

namespace Significand

def fits (s : Significand) (c : Char) : Bool :=
  decide (s.value * 10 + (c.toNat - '0'.toNat) < Nat.pow 2 64)

def push (s : Significand) (c : Char) : Nat := s.value * 10 + (c.toNat - '0'.toNat)

def addWhole (s : Significand) (c : Char) : Significand :=
  if s.dropped = 0 && s.fits c then { s with value := s.push c }
  else { s with dropped := s.dropped + 1 }

def addFraction (s : Significand) : List Char → Significand
  | [] => s
  | c :: rest =>
    if s.fits c then addFraction { s with value := s.push c, places := s.places + 1 } rest else s

end Significand

def scale? (x : Float) (exponent : Int) : Option Float :=
  if 0 ≤ exponent then
    if exponent ≤ 308 then
      let y := x * Float.ofScientific 1 false exponent.toNat
      if y.isInf then none else some y
    else if x == 0.0 then some x else none
  else if -308 ≤ exponent then some (x / Float.ofScientific 1 false (-exponent).toNat)
  else if -616 ≤ exponent then
    some (x / Float.ofScientific 1 false 308 / Float.ofScientific 1 false (-exponent - 308).toNat)
  else some 0.0

/-- The number as a double, through a significand of 64 bits: the last bit of a long literal can
    differ from the nearest double. Nothing if it is too large. -/
def float? (n : JsonNumber) : Option Float := do
  let whole := n.whole.foldl Significand.addWhole {}
  let all := whole.addFraction (n.fraction.getD [])
  let exponent := (all.dropped : Int) - all.places + n.exponent.getD 0
  let size ← scale? (Float.ofNat all.value) exponent
  pure (if n.negative then -size else size)

end JsonNumber

end Lineage
