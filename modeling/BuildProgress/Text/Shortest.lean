import BuildProgress.Text.Decimal

/-!
# The shortest decimal of a double

Of the decimals that read back as a double, the one with the fewest digits, and of those the
nearest; of two that are equally near, the larger. It is found on the grids of one, two, … seventeen
digits, by testing the two neighbours that the exact value has on each grid.
-/

namespace BuildProgress.Text

set_option autoImplicit false

/-- A positive double, four times enlarged: its value and the ends of the interval of reals that
round to it are integers over a common `denominator`. -/
structure Dyadic where
  value : Nat
  low : Nat
  high : Nat
  denominator : Nat
  /-- Whether the ends of the interval round to the double as well. -/
  closed : Bool
deriving Repr

def Dyadic.ofBits (bits : Nat) : Dyadic :=
  let fraction := bits % Nat.pow 2 52
  let biased := bits / Nat.pow 2 52 % Nat.pow 2 11
  let mantissa := if biased = 0 then fraction else fraction + Nat.pow 2 52
  let power : Int := (Nat.max biased 1 : Int) - 1077
  let scale : Nat := if power < 0 then 1 else Nat.pow 2 power.natAbs
  let below := if fraction = 0 ∧ 1 < biased then 1 else 2
  { value := 4 * mantissa * scale
    low := (4 * mantissa - below) * scale
    high := (4 * mantissa + 2) * scale
    denominator := if power < 0 then Nat.pow 2 power.natAbs else 1
    closed := mantissa % 2 = 0 }

namespace Dyadic

/-- Compares `digits * 10 ^ exponent` with a multiple of the denominator: both sides as integers. -/
def sides (d : Dyadic) (digits : Nat) (exponent : Int) (n : Nat) : Nat × Nat :=
  if exponent < 0 then (digits * d.denominator, n * Nat.pow 10 exponent.natAbs)
  else (digits * Nat.pow 10 exponent.natAbs * d.denominator, n)

def readsBack (d : Dyadic) (digits : Nat) (exponent : Int) : Bool :=
  let (x, low) := d.sides digits exponent d.low
  let (_, high) := d.sides digits exponent d.high
  if d.closed then low ≤ x && x ≤ high else low < x && x < high

/-- How far `digits * 10 ^ exponent` is from the value, on the scale of that exponent. -/
def distance (d : Dyadic) (digits : Nat) (exponent : Int) : Nat :=
  let (x, v) := d.sides digits exponent d.value
  (x - v) + (v - x)

def leading (d : Dyadic) : Int :=
  if d.denominator ≤ d.value then Int.ofNat ((decimal (d.value / d.denominator)).length - 1)
  else
    let reach := (List.range 330).find? fun j => decide (d.denominator ≤ d.value * Nat.pow 10 j)
    Int.negOfNat (reach.getD 0)

def onGrid? (d : Dyadic) (count : Nat) : Option (Nat × Int) :=
  let exponent : Int := d.leading - (count - 1 : Nat)
  let (unit, value) := d.sides 1 exponent d.value
  let down := value / unit
  let up := down + 1
  match d.readsBack down exponent, d.readsBack up exponent with
  | true, true => some (if d.distance down exponent < d.distance up exponent then down else up,
      exponent)
  | true, false => some (down, exponent)
  | false, true => some (up, exponent)
  | false, false => none

def moveZeros : Nat → Nat × Int → Nat × Int
  | 0, r => r
  | fuel + 1, (digits, exponent) =>
    if digits % 10 = 0 ∧ digits ≠ 0 then moveZeros fuel (digits / 10, exponent + 1)
    else (digits, exponent)

/-- The shortest decimal. Seventeen digits are always enough. The upper neighbour on a grid may be a
power of ten, which has one digit only. -/
def shortest (d : Dyadic) : Nat × Int :=
  moveZeros 17 (((List.range 17).findSome? fun n => d.onGrid? (n + 1)).getD (0, 0))

end Dyadic

/-- The digits of `digits * 10 ^ exponent` without an exponent: zeros fill up to the point, and
there is no point in an integer. -/
def positional (digits : Nat) (exponent : Int) : List Char :=
  let ds := decimal digits
  if 0 ≤ exponent then ds ++ List.replicate exponent.natAbs '0'
  else
    let places := exponent.natAbs
    let padded := List.replicate (places + 1 - ds.length) '0' ++ ds
    padded.take (padded.length - places) ++ ['.'] ++ padded.drop (padded.length - places)

def shortestDecimal (x : Float) : List Char :=
  let bits := x.toBits.toNat
  let sign := if bits < Nat.pow 2 63 then [] else ['-']
  if x.isNaN then ['N', 'a', 'N']
  else if x.isInf then sign ++ ['i', 'n', 'f']
  else if x == 0.0 then sign ++ ['0']
  else
    let (digits, exponent) := (Dyadic.ofBits bits).shortest
    sign ++ positional digits exponent

end BuildProgress.Text
