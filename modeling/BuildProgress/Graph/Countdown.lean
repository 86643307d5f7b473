import BuildProgress.Graph.Worklist

/-!
# Counting down, one position at a time

The work on a list of vertices in its smallest steps. At first two tables are filled, input by input:
how often each position waits, and for which positions it is waited. Then the least ready position is
taken and the positions that wait for it are released one by one, each as often as it stands in the
table, until none is ready. To release a position that waits for nothing would be a fault.
-/

namespace BuildProgress

set_option autoImplicit false

/-- How often each position waits, and the positions that wait for each position. -/
structure WaitTables where
  pending : List Nat
  dependents : List (List Nat)
deriving DecidableEq, Repr

namespace WaitTables

def empty (size : Nat) : WaitTables where
  pending := List.replicate size 0
  dependents := List.replicate size []

def add (position : Nat) (tables : WaitTables) (dependency : Nat) : WaitTables where
  pending := tables.pending.modify position (· + 1)
  dependents := tables.dependents.modify dependency (· ++ [position])

def positionsOf (vertices : List Vertex) (digest : String) : List Nat :=
  (List.range vertices.length).filter fun p => (vertices.getD p {}).digest == digest

def addVertex (vertices : List Vertex) (tables : WaitTables) (v : Vertex) (position : Nat) :
    WaitTables :=
  v.inputs.foldl (fun t input => (positionsOf vertices input).foldl (add position) t) tables

def ofVertices (vertices : List Vertex) : WaitTables :=
  vertices.zipIdx.foldl (fun t (v, position) => addVertex vertices t v position)
    (empty vertices.length)

end WaitTables

/-- A moment of the work. -/
structure Countdown extends Worklist where
  /-- The positions that the position taken last has still to release. -/
  due : List Nat := []
  /-- The positions that have become ready, one after the other. -/
  entered : List Nat := ready
deriving DecidableEq, Repr

namespace Countdown

def start (vertices : List Vertex) : Countdown :=
  let pending := (WaitTables.ofVertices vertices).pending
  { pending, ready := (List.range vertices.length).filter fun p => pending.getD p 0 == 0 }

def release? (c : Countdown) (position : Nat) (later : List Nat) : Option Countdown :=
  match c.pending.getD position 0 with
  | 0 => none
  | 1 =>
    some { c with
      pending := c.pending.set position 0
      ready := Worklist.insertPosition position c.ready
      due := later
      entered := c.entered ++ [position] }
  | left + 1 => some { c with pending := c.pending.set position left, due := later }

/-- The next step, unless the work is done or at fault. -/
def step? (tables : WaitTables) (c : Countdown) : Option Countdown :=
  match c.due with
  | position :: later => c.release? position later
  | [] =>
    match c.ready with
    | [] => none
    | position :: later =>
      some { c with
        ready := later
        taken := c.taken ++ [position]
        due := tables.dependents.getD position [] }

/-- Nothing is ready and nothing is left to be released. -/
def isDone (c : Countdown) : Bool :=
  c.ready.isEmpty && c.due.isEmpty

/-- The moments of the work on a list of vertices. -/
inductive Reached (vertices : List Vertex) : Countdown → Prop where
  | start : Reached vertices (start vertices)
  | step {c next : Countdown} (before : Reached vertices c)
      (step : c.step? (WaitTables.ofVertices vertices) = some next) : Reached vertices next

end Countdown

end BuildProgress
