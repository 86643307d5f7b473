import BuildProgress.Json.Double
import BuildProgress.Text.Decimal

/-!
# Records in JSON

How a value is read as a record with named fields. An object gives fields by name: unknown names
are ignored, a known name given twice is refused. An array gives them by position: the tail may be
missing, nothing may follow. A field that is not given takes its default; `null` is a value like
any other, except for optional fields.
-/

namespace BuildProgress.Json

set_option autoImplicit false

open BuildProgress.Text

def given (name : String) (members : List (Option String × Json)) : List Json :=
  (members.filter fun (key, _) => key == some name).map (·.2)

/-- The value of a name that is given at most once: refused if it is given twice. -/
def atMostOnce (name : String) (members : List (Option String × Json)) : Option (Option Json) :=
  match given name members with
  | [] => some none
  | [value] => some (some value)
  | _ => none

/-- The fields of a record, in the order of `names`, each with its value if it is given. -/
def fields? (names : List String) : Json → Option (List (Option Json))
  | .object members =>
    if members.all (·.1.isSome) then names.mapM fun name => atMostOnce name members else none
  | .array items =>
    if items.length ≤ names.length then
      some (items.map some ++ List.replicate (names.length - items.length) none)
    else none
  | _ => none

def text? : Json → Option String
  | .string text => text
  | _ => none

def bool? : Json → Option Bool
  | .bool b => some b
  | _ => none

def integer? : Json → Option Int
  | .number (.integer n) => some n
  | _ => none

def signed? (j : Json) : Option Int := do
  let n ← integer? j
  if isSigned64 n then some n else none

def unsigned? (j : Json) : Option Nat := do
  let n ← integer? j
  if 0 ≤ n ∧ n.toNat ≤ maxUnsigned then some n.toNat else none

def fieldOr {α : Type} (read : Json → Option α) (default : α) : Option Json → Option α
  | none => some default
  | some j => read j

/-- An optional field: `null` says the same as leaving it out. -/
def optionalField {α : Type} (read : Json → Option α) : Option Json → Option (Option α)
  | none | some .null => some none
  | some j => (read j).map some

/-- The members of a table with text keys, whose last value counts where a key is repeated. -/
def lastOfEach {α : Type} : List (String × α) → List (String × α)
  | [] => []
  | (key, value) :: rest =>
    if rest.any (·.1 == key) then lastOfEach rest else (key, value) :: lastOfEach rest

def table? {α : Type} (read : Json → Option α) : Json → Option (List (String × α))
  | .object members => do
    let entries ← members.mapM fun (key, value) => do
      let k ← key
      let v ← read value
      some (k, v)
    some (lastOfEach entries)
  | _ => none

/-- A number as it is kept: exact if it is an integer of 64 bits with or without a sign, otherwise
as a double. -/
def Number.keep? : Number → Option Number
  | .integer n =>
    if isSigned64 n || (0 ≤ n && n.toNat ≤ maxUnsigned) then some (.integer n)
    else (Double.ofDecimal? n.natAbs 0 0).map (Double.toNumber (decide (n < 0)))
  | .decimal negative digits places exponent =>
    (Double.ofDecimal? digits places exponent).map (Double.toNumber negative)

mutual

/-- A value as it is kept: every string is text, every number is in range, no key is repeated, and
arrays and objects are nested at most `levels` deep. -/
def keep? (levels : Nat) : Json → Option Json
  | .null => some .null
  | .bool b => some (.bool b)
  | .number n => n.keep?.map .number
  | .string text => text.map ofString
  | .array items =>
    match levels with
    | 0 => none
    | levels + 1 => (keepItems levels items).map .array
  | .object members =>
    match levels with
    | 0 => none
    | levels + 1 => (keepMembers levels members).map fun kept => ofMembers (lastOfEach kept)

def keepItems (levels : Nat) : List Json → Option (List Json)
  | [] => some []
  | item :: rest => do
    let kept ← keep? levels item
    let more ← keepItems levels rest
    some (kept :: more)

def keepMembers (levels : Nat) : List (Option String × Json) → Option (List (String × Json))
  | [] => some []
  | (key, value) :: rest => do
    let k ← key
    let kept ← keep? levels value
    let more ← keepMembers levels rest
    some ((k, kept) :: more)

end

end BuildProgress.Json
