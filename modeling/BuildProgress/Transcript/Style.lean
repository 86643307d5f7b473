/-!
# Styled text

A style is switched on by an escape sequence before the text and off by a reset after it. A reset
inside the text would switch it off too early, so the style is switched on again after each.
-/

namespace BuildProgress

set_option autoImplicit false

inductive Style where
  | failure
  | dimmed
  | bold
  | cyan
  | red
  | green
deriving DecidableEq, Repr

namespace Style

/-- The parameters of the escape sequence of a style. -/
def code : Style → String
  | failure => "1;31"
  | dimmed => "2"
  | bold => "1"
  | cyan => "36"
  | red => "31"
  | green => "32"

def start (s : Style) : List Char :=
  ['\x1b', '['] ++ s.code.toList ++ ['m']

def reset : List Char :=
  ['\x1b', '[', '0', 'm']

/-- Puts `again` after every reset in a text. -/
def renew (again : List Char) : List Char → List Char
  | '\x1b' :: '[' :: '0' :: 'm' :: rest => reset ++ again ++ renew again rest
  | c :: rest => c :: renew again rest
  | [] => []

def apply (s : Style) (text : List Char) : List Char :=
  s.start ++ renew s.start text ++ reset

end Style

def paint (color : Bool) (s : Style) (text : String) : String :=
  if color then String.ofList (s.apply text.toList) else text

end BuildProgress
