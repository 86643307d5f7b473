import BuildProgress.Text.Decimal
import BuildProgress.Text.Hidden

/-!
# Quoted text

The form in which messages about text show it: in double quotes, with the quote, the backslash and
everything that would not be seen written as an escape. In a path the apostrophe is escaped as well.
-/

namespace BuildProgress.Text

set_option autoImplicit false

/-- The escape that gives a character by its code point, such as `\u{7f}`. -/
def codeEscape (c : Char) : List Char :=
  ['\\', 'u', '{'] ++ hexadecimal c.toNat ++ ['}']

def quotedChar (c : Char) : List Char :=
  if c = '\x00' then ['\\', '0']
  else if c = '\t' then ['\\', 't']
  else if c = '\r' then ['\\', 'r']
  else if c = '\n' then ['\\', 'n']
  else if c = '"' then ['\\', '"']
  else if c = '\\' then ['\\', '\\']
  else if c.toNat < 0x20 || c.toNat == 0x7F then codeEscape c
  else if c.toNat < 0x80 then [c]
  else if isHidden c.toNat then codeEscape c
  else [c]

def quoted (text : String) : String :=
  String.ofList (['"'] ++ text.toList.flatMap quotedChar ++ ['"'])

def quotedPathChar (c : Char) : List Char :=
  if c = '\'' then ['\\', '\''] else quotedChar c

def quotedPath (path : String) : String :=
  String.ofList (['"'] ++ path.toList.flatMap quotedPathChar ++ ['"'])

def quotedList (texts : List String) : String :=
  "[" ++ ", ".intercalate (texts.map quoted) ++ "]"

end BuildProgress.Text
