namespace Lineage.Decimal

structure Scaled where
  digits : Nat
  exponent : Int
deriving DecidableEq, Repr

structure Ratio where
  num : Nat
  den : Nat

namespace Ratio

def scale (n base : Nat) (exponent : Int) : Ratio :=
  if 0 ≤ exponent then ⟨n * Nat.pow base exponent.toNat, 1⟩
  else ⟨n, Nat.pow base (-exponent).toNat⟩

def le (a b : Ratio) : Bool := a.num * b.den ≤ b.num * a.den

def lt (a b : Ratio) : Bool := !b.le a

def dist (a b : Ratio) : Ratio :=
  let left := a.num * b.den
  let right := b.num * a.den
  ⟨(left - right) + (right - left), a.den * b.den⟩

def magnitude (a : Ratio) : Int :=
  let guess : Int := (Nat.toDigits 10 a.num).length - (Nat.toDigits 10 a.den).length
  if (scale 1 10 guess).le a then guess else guess - 1

end Ratio

/-- The reals that read back as one binary number; the ends belong to them if its last bit is 0. -/
structure Interval where
  low : Ratio
  high : Ratio
  closed : Bool

namespace Interval

/-- Half way to the two neighbours of `mantissa · 2 ^ exponent`; below a power of two the
    neighbour is half as far. -/
def around (mantissa : Nat) (exponent least : Int) (hidden : Nat) : Interval where
  low :=
    if mantissa = hidden ∧ least < exponent then .scale (4 * mantissa - 1) 2 (exponent - 2)
    else .scale (2 * mantissa - 1) 2 (exponent - 1)
  high := .scale (2 * mantissa + 1) 2 (exponent - 1)
  closed := mantissa % 2 == 0

def contains (i : Interval) (x : Ratio) : Bool :=
  if i.closed then i.low.le x && x.le i.high else i.low.lt x && x.lt i.high

end Interval

def onGrid (value : Ratio) (i : Interval) (exponent : Int) : Option Scaled :=
  let step := Ratio.scale 1 10 exponent
  let below := value.num * step.den / (value.den * step.num)
  let down := Ratio.scale below 10 exponent
  let up := Ratio.scale (below + 1) 10 exponent
  match i.contains down, i.contains up with
  | true, true => if (value.dist down).lt (value.dist up) then some ⟨below, exponent⟩
      else some ⟨below + 1, exponent⟩
  | true, false => some ⟨below, exponent⟩
  | false, true => some ⟨below + 1, exponent⟩
  | false, false => none

/-- The decimal with the fewest digits that reads back as the positive double
    `mantissa · 2 ^ exponent`: a point of the coarsest grid that has one in the interval. -/
def shortest (mantissa : Nat) (exponent : Int) : Scaled :=
  let value := Ratio.scale mantissa 2 exponent
  let interval := Interval.around mantissa exponent (-1074) (Nat.pow 2 52)
  let top := value.magnitude
  ((List.range 18).findSome? fun (finer : Nat) => onGrid value interval (top + 1 - finer)).getD
    ⟨mantissa, exponent⟩

def Scaled.positional (d : Scaled) : List Char :=
  let digits := Nat.toDigits 10 d.digits
  if 0 ≤ d.exponent then digits ++ List.replicate d.exponent.toNat '0'
  else
    let places := (-d.exponent).toNat
    let padded := List.replicate (places + 1 - digits.length) '0' ++ digits
    padded.take (padded.length - places) ++ '.' :: padded.drop (padded.length - places)

def floatText (x : Float) : String :=
  let bits : Nat := x.toBits.toNat
  let fraction : Nat := bits % Nat.pow 2 52
  let biased : Nat := bits / Nat.pow 2 52 % Nat.pow 2 11
  let sign := if bits / Nat.pow 2 63 = 1 then ['-'] else []
  if biased = 2047 then
    if fraction = 0 then String.ofList (sign ++ ['i', 'n', 'f']) else "NaN"
  else if biased = 0 ∧ fraction = 0 then String.ofList (sign ++ ['0'])
  else
    let scaled := if biased = 0 then shortest fraction (-1074)
      else shortest (Nat.pow 2 52 + fraction) ((biased : Int) - 1075)
    String.ofList (sign ++ scaled.positional)

end Lineage.Decimal
