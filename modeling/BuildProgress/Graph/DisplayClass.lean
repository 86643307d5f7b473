import BuildProgress.Text.Blank
import BuildProgress.Text.Decimal
import BuildProgress.Text.Lines

/-!
# Display classes

The name of a vertex says where it is shown. BuildKit's own vertices are marked `[internal]`, the
vertices of a stage are numbered, as in `[stage 2/5] RUN make`, and the last one exports the image.
-/

namespace BuildProgress

set_option autoImplicit false

open BuildProgress.Text

inductive DisplayClass where
  /-- A vertex of BuildKit's own; the one that loads the build definition comes first. -/
  | internal (loadsDefinition : Bool)
  /-- A vertex of a stage, with its number in the stage if it has one. -/
  | stage (name : List Char) (step : Option Nat)
  | unprefixed
  | exporting
deriving DecidableEq, Repr

namespace DisplayClass

def internalMark : String := "[internal] "

def definitionMark : String := "[internal] load build definition "

def exportName : String := "exporting to image"

/-- The text between the brackets in front of a name. -/
def bracketed? : List Char → Option (List Char)
  | '[' :: rest => (splitFirst? ']' rest).map (·.1)
  | _ => none

/-- The class of a vertex with the given text, already trimmed, between its brackets: the stage ends
at the last blank, and the counter is what stands before the first slash after it. Without a
counter the whole text is the stage. -/
def ofBracketed (inner : List Char) : DisplayClass :=
  let (stageName, counter) := match splitLast? ' ' inner with
    | some (before, after) => (trim before, after)
    | none => ([], inner)
  match (splitFirst? '/' counter).bind fun (digits, _) => readCount? digits with
  | some step => .stage stageName (some step)
  | none => .stage inner none

def ofName (name : String) : DisplayClass :=
  if name = exportName then .exporting
  else if internalMark.toList.isPrefixOf name.toList then
    .internal (definitionMark.toList.isPrefixOf name.toList)
  else match bracketed? name.toList with
    | some inner => ofBracketed (trim inner)
    | none => .unprefixed

def rank : DisplayClass → Nat
  | internal true => 0
  | internal false => 1
  | stage _ _ => 2
  | unprefixed => 3
  | exporting => 4

def stage? : DisplayClass → Option (List Char)
  | stage name _ => some name
  | _ => none

/-- The place of a class within its stage: by number, and last without one. -/
def stepKey : DisplayClass → Nat
  | stage _ step => step.getD maxUnsigned
  | _ => maxUnsigned

end DisplayClass

end BuildProgress
