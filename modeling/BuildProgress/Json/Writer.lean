import BuildProgress.Json.Basic
import BuildProgress.Text.Decimal

/-!
# Writing JSON text

The compact form, without blanks, and a form with one member a line for records that people edit.
Only what must be escaped is escaped.
-/

namespace BuildProgress.Json

set_option autoImplicit false

open BuildProgress.Text

def escapedChar (c : Char) : List Char :=
  if c = '"' then ['\\', '"']
  else if c = '\\' then ['\\', '\\']
  else if c = '\n' then ['\\', 'n']
  else if c = '\r' then ['\\', 'r']
  else if c = '\t' then ['\\', 't']
  else if c = '\x08' then ['\\', 'b']
  else if c = '\x0c' then ['\\', 'f']
  else if c.toNat < 0x20 then
    ['\\', 'u', '0', '0', Nat.digitChar (c.toNat / 16), Nat.digitChar (c.toNat % 16)]
  else [c]

def writeText (text : String) : List Char :=
  '"' :: text.toList.flatMap escapedChar ++ ['"']

/-- A string with its quotes. One that is no text is written as the replacement character. -/
def writeString (text : Option String) : List Char :=
  writeText (text.getD "\uFFFD")

def writeNumber : Number → List Char
  | .integer n => signedDecimal n
  | .decimal negative digits places exponent =>
    (if negative then ['-'] else []) ++ decimal digits ++ ['e']
      ++ signedDecimal (exponent - places)

mutual

/-- The compact form of a value. -/
def write : Json → List Char
  | .null => ['n', 'u', 'l', 'l']
  | .bool true => ['t', 'r', 'u', 'e']
  | .bool false => ['f', 'a', 'l', 's', 'e']
  | .number n => writeNumber n
  | .string text => writeString text
  | .array items => '[' :: writeItems items ++ [']']
  | .object members => '{' :: writeMembers members ++ ['}']

def writeItems : List Json → List Char
  | [] => []
  | [item] => write item
  | item :: rest => write item ++ ',' :: writeItems rest

def writeMembers : List (Option String × Json) → List Char
  | [] => []
  | [(key, value)] => writeString key ++ ':' :: write value
  | (key, value) :: rest => writeString key ++ ':' :: write value ++ ',' :: writeMembers rest

end

def memberLine (key : String) (value : Json) : List Char :=
  ['\n', ' ', ' '] ++ writeText key ++ [':', ' '] ++ write value

/-- A record with one member a line. Its values are numbers, strings, truth values and null. -/
def writeLines (members : List (String × Json)) : List Char :=
  match members with
  | [] => ['{', '}']
  | (key, value) :: rest =>
    '{' :: memberLine key value ++ rest.flatMap (fun (k, v) => ',' :: memberLine k v) ++ ['\n', '}']

end BuildProgress.Json
