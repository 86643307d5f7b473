import BuildProgress.Json.Basic
import BuildProgress.Text.Decimal

/-!
# Reading JSON text

A strict reader: one value with nothing but blanks around it, no raw control characters in strings,
no leading zeros. Depth is not limited here; a reader of kept values limits it.
-/

namespace BuildProgress.Json

set_option autoImplicit false

open BuildProgress.Text

/-- The four blanks of the grammar. -/
def isGap (c : Char) : Bool :=
  c == ' ' || c == '\n' || c == '\t' || c == '\r'

def skipGaps (cs : List Char) : List Char :=
  cs.dropWhile isGap

def hexUnit? (a b c d : Char) : Option Nat := do
  let w ← hexDigit? a
  let x ← hexDigit? b
  let y ← hexDigit? c
  let z ← hexDigit? d
  some (((w * 16 + x) * 16 + y) * 16 + z)

def escaped? (c : Char) : Option Char :=
  if c = '"' || c = '\\' || c = '/' then some c
  else if c = 'b' then some '\x08'
  else if c = 'f' then some '\x0c'
  else if c = 'n' then some '\n'
  else if c = 'r' then some '\r'
  else if c = 't' then some '\t'
  else none

/-- Reads a string after its opening quote, up to and with its closing quote, as code points. An
escape may give half of a surrogate pair. -/
def stringPoints : List Char → Option (List Nat × List Char)
  | [] => none
  | '"' :: rest => some ([], rest)
  | '\\' :: 'u' :: a :: b :: c :: d :: rest => do
    let point ← hexUnit? a b c d
    let (points, after) ← stringPoints rest
    some (point :: points, after)
  | '\\' :: e :: rest => do
    let c ← escaped? e
    let (points, after) ← stringPoints rest
    some (c.toNat :: points, after)
  | c :: rest => do
    if c.toNat < 0x20 then none
    else
      let (points, after) ← stringPoints rest
      some (c.toNat :: points, after)

def isHighSurrogate (point : Nat) : Bool :=
  0xD800 ≤ point && point ≤ 0xDBFF

def isLowSurrogate (point : Nat) : Bool :=
  0xDC00 ≤ point && point ≤ 0xDFFF

/-- The text of code points, surrogate pairs joined, if no half stands alone. -/
def joinPairs : List Nat → Option (List Char)
  | [] => some []
  | [point] =>
    if isHighSurrogate point || isLowSurrogate point then none else some [Char.ofNat point]
  | first :: second :: rest =>
    if isHighSurrogate first then
      if isLowSurrogate second then
        (joinPairs rest).map
          (Char.ofNat (0x10000 + (first - 0xD800) * 0x400 + (second - 0xDC00)) :: ·)
      else none
    else if isLowSurrogate first then none
    else (joinPairs (second :: rest)).map (Char.ofNat first :: ·)

def stringBody (cs : List Char) : Option (Option String × List Char) :=
  (stringPoints cs).map fun (points, rest) => ((joinPairs points).map String.ofList, rest)

/-- Reads the digits after a point, of which there must be one; none without a point. -/
def fraction? : List Char → Option (List Char × List Char)
  | '.' :: rest =>
    let digits := rest.takeWhile isDigit
    if digits.isEmpty then none else some (digits, rest.dropWhile isDigit)
  | rest => some ([], rest)

def exponentDigits? (negative : Bool) (cs : List Char) : Option (Option Int × List Char) :=
  let digits := cs.takeWhile isDigit
  if digits.isEmpty then none
  else
    let n : Int := digitsValue digits
    some (some (if negative then -n else n), cs.dropWhile isDigit)

def exponent? : List Char → Option (Option Int × List Char)
  | c :: rest =>
    if c = 'e' ∨ c = 'E' then
      match rest with
      | '-' :: digits => exponentDigits? true digits
      | '+' :: digits => exponentDigits? false digits
      | digits => exponentDigits? false digits
    else some (none, c :: rest)
  | [] => some (none, [])

def unsignedNumber? (negative : Bool) (cs : List Char) : Option (Number × List Char) := do
  let whole := cs.takeWhile isDigit
  if whole.isEmpty || (whole.head? == some '0' && whole.length != 1) then none
  else
    let (places, rest) ← fraction? (cs.dropWhile isDigit)
    let (exponent, rest) ← exponent? rest
    if places.isEmpty && exponent.isNone && !(negative && digitsValue whole == 0) then
      let n : Int := digitsValue whole
      some (.integer (if negative then -n else n), rest)
    else
      some (.decimal negative (digitsValue (whole ++ places)) places.length (exponent.getD 0), rest)

def number? : List Char → Option (Number × List Char)
  | '-' :: rest => unsignedNumber? true rest
  | cs => unsignedNumber? false cs

mutual

/-- Reads a value after leading blanks. Each call spends one unit of `fuel`. -/
def valueFrom : Nat → List Char → Option (Json × List Char)
  | 0, _ => none
  | fuel + 1, cs =>
    match skipGaps cs with
    | 'n' :: 'u' :: 'l' :: 'l' :: rest => some (.null, rest)
    | 't' :: 'r' :: 'u' :: 'e' :: rest => some (.bool true, rest)
    | 'f' :: 'a' :: 'l' :: 's' :: 'e' :: rest => some (.bool false, rest)
    | '"' :: rest => (stringBody rest).map fun (text, after) => (.string text, after)
    | '[' :: rest =>
      match skipGaps rest with
      | ']' :: after => some (.array [], after)
      | _ => (itemsFrom fuel rest).map fun (items, after) => (.array items, after)
    | '{' :: rest =>
      match skipGaps rest with
      | '}' :: after => some (.object [], after)
      | _ => (membersFrom fuel rest).map fun (members, after) => (.object members, after)
    | rest => (number? rest).map fun (n, after) => (.number n, after)

def itemsFrom : Nat → List Char → Option (List Json × List Char)
  | 0, _ => none
  | fuel + 1, cs => do
    let (item, rest) ← valueFrom fuel cs
    match skipGaps rest with
    | ',' :: more =>
      let (items, after) ← itemsFrom fuel more
      some (item :: items, after)
    | ']' :: after => some ([item], after)
    | _ => none

def membersFrom : Nat → List Char → Option (List (Option String × Json) × List Char)
  | 0, _ => none
  | fuel + 1, cs =>
    match skipGaps cs with
    | '"' :: rest => do
      let (key, rest) ← stringBody rest
      match skipGaps rest with
      | ':' :: rest =>
        let (value, rest) ← valueFrom fuel rest
        match skipGaps rest with
        | ',' :: more =>
          let (members, after) ← membersFrom fuel more
          some ((key, value) :: members, after)
        | '}' :: after => some ([(key, value)], after)
        | _ => none
      | _ => none
    | _ => none

end

/-- The value that a text spells, if it spells one. A call that spends fuel and takes no character
is followed by one that does, so twice the length is enough. -/
def read? (text : List Char) : Option Json := do
  let (value, rest) ← valueFrom (2 * text.length + 2) text
  if (skipGaps rest).isEmpty then some value else none

end BuildProgress.Json
