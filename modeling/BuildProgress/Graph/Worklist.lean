import BuildProgress.Graph.Batch

/-!
# Taking vertices after their inputs

The positions of a list of vertices are taken one by one. A position waits for every position that
holds the digest of one of its inputs, once for each time the input is listed; the positions that
wait for nothing are ready, and the least of them is taken next. What is never ready depends on a
cycle.
-/

namespace BuildProgress

set_option autoImplicit false

/-- The state of the work: how often each position still waits, the ready positions in rising
order, and the positions taken so far. -/
structure Worklist where
  pending : List Nat
  ready : List Nat
  taken : List Nat := []
deriving DecidableEq, Repr

def Vertex.inputCount (v : Vertex) (digest : String) : Nat :=
  v.inputs.count digest

namespace Worklist

/-- How often a vertex waits at first: the positions of each of its inputs. -/
def waits (vertices : List Vertex) (v : Vertex) : Nat :=
  (v.inputs.map fun input => vertices.countP (·.digest == input)).foldr (· + ·) 0

/-- The positions that wait for a digest, each as often as it waits. -/
def dependents (vertices : List Vertex) (digest : String) : List Nat :=
  vertices.zipIdx.flatMap fun (v, position) => List.replicate (v.inputCount digest) position

/-- Inserts a position into a list in rising order, unless it is there. -/
def insertPosition (position : Nat) : List Nat → List Nat
  | [] => [position]
  | p :: rest =>
    if position < p then position :: p :: rest
    else if position = p then p :: rest
    else p :: insertPosition position rest

def initial (vertices : List Vertex) : Worklist :=
  let pending := vertices.map (waits vertices)
  { pending, ready := (List.range pending.length).filter fun p => pending.getD p 0 == 0 }

def release (w : Worklist) (position : Nat) : Worklist :=
  let left := w.pending.getD position 0 - 1
  { w with
    pending := w.pending.set position left
    ready := if left = 0 then insertPosition position w.ready else w.ready }

def takeNext? (vertices : List Vertex) (w : Worklist) : Option Worklist :=
  match w.ready with
  | [] => none
  | position :: later =>
    let digest := (vertices.getD position {}).digest
    some ((dependents vertices digest).foldl release
      { w with ready := later, taken := w.taken ++ [position] })

/-- Takes positions until none is ready, at most `fuel` of them. -/
def exhaust (vertices : List Vertex) : Nat → Worklist → Worklist
  | 0, w => w
  | fuel + 1, w =>
    match w.takeNext? vertices with
    | none => w
    | some next => exhaust vertices fuel next

/-- The state in which no position is ready. No position is taken twice, so as many steps as there
are vertices are enough. -/
def final (vertices : List Vertex) : Worklist :=
  exhaust vertices vertices.length (initial vertices)

def waiting (w : Worklist) : List Nat :=
  (List.range w.pending.length).filter fun p => 0 < w.pending.getD p 0

end Worklist

end BuildProgress
