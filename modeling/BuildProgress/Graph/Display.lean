import BuildProgress.Graph.Batch
import BuildProgress.Graph.DisplayClass

/-!
# The display list of a batch

The records of a batch as they would be shown if none depended on another: by display class, and
within a stage by step number. Stages keep the places that their records have in the batch, so that
records of different stages stay interleaved as they came.
-/

namespace BuildProgress

set_option autoImplicit false

/-- Inserts an item before the items whose key is not smaller. -/
def insertBy {α : Type} (key : α → Nat) (x : α) : List α → List α
  | [] => [x]
  | y :: ys => if key x ≤ key y then x :: y :: ys else y :: insertBy key x ys

/-- Sorts by a key; items with equal keys keep their order. -/
def sortBy {α : Type} (key : α → Nat) (xs : List α) : List α :=
  xs.foldr (insertBy key) []

def takeFirst? {α : Type} (p : α → Bool) : List α → Option (α × List α)
  | [] => none
  | x :: xs =>
    if p x then some (x, xs) else (takeFirst? p xs).map fun (y, rest) => (y, x :: rest)

structure Entry where
  index : Nat
  vertex : Vertex
deriving DecidableEq, Repr, Inhabited

namespace Entry

def displayClass (e : Entry) : DisplayClass :=
  .ofName e.vertex.name

def rank (e : Entry) : Nat :=
  e.displayClass.rank

def stage? (e : Entry) : Option (List Char) :=
  e.displayClass.stage?

def stepKey (e : Entry) : Nat :=
  e.displayClass.stepKey

end Entry

def entries (vertices : List Vertex) : List Entry :=
  vertices.zipIdx.map fun (v, i) => ⟨i, v⟩

/-- Puts into each place that belongs to a stage the first record of that stage in `queue`, and
leaves the other places as they are. -/
def dealStages (queue : List Entry) : List Entry → List Entry
  | [] => []
  | e :: rest =>
    match e.stage? with
    | none => e :: dealStages queue rest
    | some stage =>
      match takeFirst? (fun q => q.stage? == some stage) queue with
      | some (next, later) => next :: dealStages later rest
      | none => e :: dealStages queue rest

/-- Sorts the records of each stage by step number, in the places that the stage has. -/
def sortStages (display : List Entry) : List Entry :=
  dealStages (sortBy Entry.stepKey display) display

/-- The records of a batch in display order, before their inputs are looked at. -/
def displayList (vertices : List Vertex) : List Entry :=
  sortStages (sortBy Entry.rank (entries vertices))

end BuildProgress
