import BuildProgress.Json.Basic
import BuildProgress.Text.Decimal

/-!
# Doubles in JSON

A number that is no integer of 64 bits is kept as a double. Its leading digits, about as many as fit
64 bits, are rounded to a double, which is then multiplied or divided by a power of ten; each of
these operations rounds to the nearest double, and of two to the even one. A result that is not
finite is refused.
-/

namespace BuildProgress.Json

set_option autoImplicit false

open BuildProgress.Text

/-- A finite double that is not negative: `mantissa * 2 ^ exponent`. -/
structure Double where
  mantissa : Nat
  exponent : Int
deriving DecidableEq, Repr

namespace Double

/-- The factor of the numerator and that of the denominator that divide a fraction by
`2 ^ exponent`. -/
def factors (exponent : Int) : Nat × Nat :=
  if exponent < 0 then (Nat.pow 2 exponent.natAbs, 1) else (1, Nat.pow 2 exponent.natAbs)

/-- The integer nearest to a fraction; of two the even one. -/
def nearest (numerator denominator : Nat) : Nat :=
  let q := numerator / denominator
  let twice := 2 * (numerator % denominator)
  if twice < denominator ∨ (twice = denominator ∧ q % 2 = 0) then q else q + 1

/-- The exponent of the double nearest to a positive fraction: its integer part has 53 bits on that
scale, or fewer if the exponent is the least one. -/
def scaleOf (numerator denominator : Nat) : Int :=
  let guess : Int := (numerator.log2 : Int) - denominator.log2 - 53
  let (n, d) := factors guess
  let exact := if numerator * n / (denominator * d) < Nat.pow 2 53 then guess else guess + 1
  max exact (-1074)

def ofFraction? (numerator denominator : Nat) : Option Double :=
  let exponent := scaleOf numerator denominator
  let (n, d) := factors exponent
  let mantissa := nearest (numerator * n) (denominator * d)
  if exponent = 971 ∧ mantissa = Nat.pow 2 53 ∨ 971 < exponent then none
  else some ⟨mantissa, exponent⟩

def fraction (x : Double) : Nat × Nat :=
  let (d, n) := factors x.exponent
  (x.mantissa * n, d)

def power? (exponent : Nat) : Option Double :=
  ofFraction? (Nat.pow 10 exponent) 1

def times? (x y : Double) : Option Double :=
  let (a, b) := x.fraction
  let (c, d) := y.fraction
  ofFraction? (a * c) (b * d)

def over? (x y : Double) : Option Double :=
  let (a, b) := x.fraction
  let (c, d) := y.fraction
  ofFraction? (a * d) (b * c)

def maxPower : Nat := 308

/-- Multiplies a double by a power of ten, or divides it by one. An exponent beyond the powers of
ten that are finite takes several divisions, until the exponent is in range or zero is reached; no
double needs more than three of them. -/
def scale? : Nat → Double → Int → Option Double
  | rounds, x, exponent =>
    if x.mantissa = 0 then some x
    else if exponent.natAbs ≤ maxPower then do
      let power ← power? exponent.natAbs
      if 0 ≤ exponent then x.times? power else x.over? power
    else if 0 < exponent then none
    else match rounds with
      | 0 => some ⟨0, 0⟩
      | rounds + 1 => do
        let power ← power? maxPower
        let y ← x.over? power
        scale? rounds y (exponent + maxPower)

/-- Drops digits at the end of a number, each of which adds one to the exponent, until it fits 64
bits. -/
def leadingDigits (digits : Nat) : Nat × Nat :=
  if digits ≤ maxUnsigned then (digits, 0)
  else
    let (leading, dropped) := leadingDigits (digits / 10)
    (leading, dropped + 1)
termination_by digits
decreasing_by
  simp only [maxUnsigned] at *
  omega

/-- The digits that are kept of a number, the last `places` of which stand after the point, and the
exponent that makes up for the point and for the digits that are dropped. Digits are kept from the
front while they fit 64 bits. This starts anew at the point: the first digit after it may be kept
although digits before it were dropped. -/
def keptDigits (digits places : Nat) : Nat × Int :=
  let (whole, dropped) := leadingDigits (digits / Nat.pow 10 places)
  if dropped = 0 then
    let (leading, lost) := leadingDigits digits
    (leading, (lost : Int) - places)
  else
    let first := digits / Nat.pow 10 (places - 1) % 10
    if 0 < places ∧ whole * 10 + first ≤ maxUnsigned then (whole * 10 + first, (dropped : Int) - 1)
    else (whole, dropped)

def ofDecimal? (digits places : Nat) (exponent : Int) : Option Double := do
  let (kept, shift) := keptDigits digits places
  let x ← ofFraction? kept 1
  scale? 3 x (exponent + shift)

def toNumber (negative : Bool) (x : Double) : Number :=
  if x.exponent < 0 then
    .decimal negative (x.mantissa * Nat.pow 5 x.exponent.natAbs) 0 x.exponent
  else .decimal negative (x.mantissa * Nat.pow 2 x.exponent.natAbs) 0 0

end Double

end BuildProgress.Json
