/-!
# Lines

A line feed ends a line, and one carriage return before it belongs to the ending. What follows the
last line feed is a line of its own unless it is empty; a carriage return at its end stays.
-/

namespace BuildProgress.Text

set_option autoImplicit false

variable {α : Type} [DecidableEq α]

/-- The stretches that `stop` ends, each without it, and what follows the last `stop`. -/
def stretches (stop : α) : List α → List (List α) × List α
  | [] => ([], [])
  | x :: xs =>
    let (ended, rest) := stretches stop xs
    if x = stop then ([] :: ended, rest)
    else match ended with
      | [] => ([], x :: rest)
      | first :: more => ((x :: first) :: more, rest)

def dropLastIf (x : α) (xs : List α) : List α :=
  if xs.getLast? = some x then xs.dropLast else xs

/-- The lines that `feed` ends, without `feed` and one `ret` before it, and then the unended rest
if it is not empty. -/
def linesBy (feed ret : α) (xs : List α) : List (List α) :=
  let (ended, rest) := stretches feed xs
  ended.map (dropLastIf ret) ++ if rest.isEmpty then [] else [rest]

def lines (text : List Char) : List (List Char) :=
  linesBy '\n' '\r' text

def splitFirst? (stop : α) : List α → Option (List α × List α)
  | [] => none
  | x :: xs =>
    if x = stop then some ([], xs)
    else (splitFirst? stop xs).map fun (before, after) => (x :: before, after)

def splitLast? (stop : α) (xs : List α) : Option (List α × List α) :=
  (splitFirst? stop xs.reverse).map fun (after, before) => (before.reverse, after.reverse)

/-- The parts between the `stop`s, one more than there are `stop`s. -/
def splitAll (stop : α) (xs : List α) : List (List α) :=
  let (ended, rest) := stretches stop xs
  ended ++ [rest]

end BuildProgress.Text
