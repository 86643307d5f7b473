import BuildProgress.Error

/-!
# Builders

There are two builders: the legacy one, and BuildKit.
-/

namespace BuildProgress

set_option autoImplicit false

inductive Builder where
  | legacy
  | buildKit
deriving DecidableEq, Repr, Inhabited

namespace Builder

def label : Builder → String
  | legacy => "legacy"
  | buildKit => "buildkit"

def version : Builder → String
  | legacy => "1"
  | buildKit => "2"

/-- A character in lower case where that can matter for a builder's name: the capital letters of
ASCII, and the Kelvin sign, the only other character with an ASCII letter as its lower case. -/
def lower (c : Char) : Char :=
  if 'A' ≤ c ∧ c ≤ 'Z' then Char.ofNat (c.toNat + 32)
  else if c = '\u212A' then 'k'
  else c

/-- The builder that a text names by its word or its version, in letters of either case. -/
def ofText? (text : String) : Option Builder :=
  let name := String.ofList (text.toList.map lower)
  if name = version legacy ∨ name = label legacy then some legacy
  else if name = version buildKit ∨ name = label buildKit then some buildKit
  else none

def ofText (text : String) : Except BuildError Builder :=
  match ofText? text with
  | some builder => .ok builder
  | none => .error (.invalidRequest (.unknownBuilder text))

end Builder

end BuildProgress
