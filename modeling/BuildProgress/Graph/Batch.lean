/-!
# Status batches

BuildKit speaks of a graph of vertices, each known by a digest. It reports in batches: records of
vertices, counters that belong to vertices, and chunks of what vertices wrote.
-/

namespace BuildProgress

set_option autoImplicit false

/-- A moment: whole seconds since 1970 and nanoseconds below 10 ^ 9. -/
structure Instant where
  seconds : Nat
  nanos : Nat
deriving DecidableEq, Repr, Inhabited

structure Vertex where
  digest : String := ""
  /-- The digests of the vertices that it depends on. -/
  inputs : List String := []
  name : String := ""
  started : Option Instant := none
  completed : Option Instant := none
  /-- Why the vertex failed; empty if it did not. -/
  error : String := ""
  cached : Bool := false
deriving DecidableEq, Repr, Inhabited

namespace Vertex

def isStarted (v : Vertex) : Bool :=
  v.started.isSome

def isCompleted (v : Vertex) : Bool :=
  v.completed.isSome

end Vertex

structure VertexStatus where
  id : String := ""
  vertex : String := ""
  name : String := ""
  current : Int := 0
  total : Int := 0
  timestamp : Option Instant := none
  started : Option Instant := none
  completed : Option Instant := none
deriving DecidableEq, Repr, Inhabited

/-- A chunk of what a vertex wrote: to standard output (1) or standard error (2). -/
structure VertexLog where
  vertex : String := ""
  stream : Int := 0
  data : List UInt8 := []
  timestamp : Option Instant := none
deriving DecidableEq, Repr, Inhabited

structure Batch where
  vertices : List Vertex := []
  statuses : List VertexStatus := []
  logs : List VertexLog := []
deriving DecidableEq, Repr, Inhabited

def Batch.isEmpty (b : Batch) : Bool :=
  b.vertices.isEmpty && b.statuses.isEmpty && b.logs.isEmpty

end BuildProgress
