/-!
# JSON values

A value as a document spells it. Members of an object keep their order and their repetitions, and a
string whose escapes leave a surrogate without its partner is kept apart from text: whether a reader
minds either depends on what it does with the value.
-/

namespace BuildProgress

set_option autoImplicit false

/-- A number: an integer literal, or one with a fraction, an exponent or a negative zero. The last
`places` of the digits of the latter stand after the point; its value is
`digits * 10 ^ (exponent - places)`. -/
inductive Json.Number where
  | integer (value : Int)
  | decimal (negative : Bool) (digits places : Nat) (exponent : Int)
deriving DecidableEq, Repr, Inhabited

/-- A JSON value. The text of a string or a key is `none` if a surrogate in it has no partner. -/
inductive Json where
  | null
  | bool (value : Bool)
  | number (value : Json.Number)
  | string (text : Option String)
  | array (items : List Json)
  | object (members : List (Option String × Json))
deriving Repr, Inhabited

namespace Json

def ofString (s : String) : Json :=
  .string (some s)

def ofNat (n : Nat) : Json :=
  .number (.integer n)

def ofInt (n : Int) : Json :=
  .number (.integer n)

def ofMembers (members : List (String × Json)) : Json :=
  .object (members.map fun (k, v) => (some k, v))

end Json

end BuildProgress
