import BuildProgress.Text.Decimal

/-!
# Lines of the legacy builder

The legacy builder shows steps only in its text. A step line is a whole text of the form
`Step <number>/<count> : <name>`, and there are a few lines that the builder adds around a step,
each with the twelve hexadecimal digits of a container or a layer.
-/

namespace BuildProgress.Legacy

set_option autoImplicit false

open BuildProgress.Text

/-- The digits of the number of a step and its name. -/
structure StepLine where
  digits : List Char
  name : List Char
deriving DecidableEq, Repr

def after? (mark : String) (text : List Char) : Option (List Char) :=
  List.isPrefixOf? mark.toList text

def digits? (text : List Char) : Option (List Char × List Char) :=
  let digits := text.takeWhile isDigit
  if digits.isEmpty then none else some (digits, text.dropWhile isDigit)

/-- Reads a step line. The name goes to the end of the text and holds no line feed. -/
def StepLine.read? (text : List Char) : Option StepLine := do
  let rest ← after? "Step " text
  let (digits, rest) ← digits? rest
  let rest ← after? "/" rest
  let (_, rest) ← digits? rest
  let name ← after? " : " rest
  if '\n' ∈ name then none else some { digits, name }

def isHexDigit (c : Char) : Bool :=
  isDigit c || ('a' ≤ c && c ≤ 'f')

/-- Whether a text is the mark, twelve hexadecimal digits and a line feed. -/
def isMarked (mark : String) (text : List Char) : Bool :=
  match after? mark text with
  | some rest =>
    let digits := rest.takeWhile isHexDigit
    digits.length == 12 && rest.dropWhile isHexDigit == ['\n']
  | none => false

def isRunningLine (text : List Char) : Bool :=
  isMarked " ---> Running in " text

def isRemovalLine (text : List Char) : Bool :=
  isMarked "Removing intermediate container " text

def isLayerLine (text : List Char) : Bool :=
  isMarked " ---> " text

def isBuiltLine (text : List Char) : Bool :=
  isMarked "Successfully built " text

/-- An ASCII letter in upper case; anything else as it is. Outside ASCII only ligatures such as U+FB00
have a letter of `FROM` in their upper case, and the letter after it is never the next one there. -/
def upper (c : Char) : Char :=
  if 'a' ≤ c ∧ c ≤ 'z' then Char.ofNat (c.toNat - 32) else c

/-- Whether a step fetches an image rather than runs a command. -/
def isTransfer (name : List Char) : Bool :=
  "FROM ".toList.isPrefixOf (name.map upper)

end BuildProgress.Legacy
