import BuildProgress.Delivery
import BuildProgress.Graph.Order
import BuildProgress.Text.Utf8

/-!
# From batches to steps

Each vertex becomes one step, numbered when it first starts or completes. A vertex that completed
and is then reported as not completed starts again under the same number. In every batch all starts
come first, then counters and output, then completions and failures.
-/

namespace BuildProgress

set_option autoImplicit false

structure Tracer where
  /-- The digests that have a step, in the order of their numbers. -/
  numbered : List String := []
  /-- The digests whose step is finished. -/
  finished : List String := []
deriving DecidableEq, Repr, Inhabited

namespace Tracer

/-- The step of a vertex: its place among the numbered digests, counted from 1. -/
def step? (t : Tracer) (digest : String) : Option Nat :=
  (t.numbered.idxOf? digest).map (· + 1)

/-- The step of a vertex, which the backend promises to announce before it speaks of it. -/
def stepOf (t : Tracer) (digest : String) : Except BuildError Nat :=
  match t.step? digest with
  | some step => .ok step
  | none => .error (.contractViolation (.unknownVertex digest))

def number (t : Tracer) (digest : String) : Tracer :=
  { t with numbered := t.numbered ++ [digest] }

def finish (t : Tracer) (digest : String) : Tracer :=
  { t with finished := t.finished ++ [digest] }

def reopen (t : Tracer) (digest : String) : Tracer :=
  { t with finished := t.finished.filter (· != digest) }

def uploadName : String := "transferring"

def extractionMark : String := "extracting "

def withoutMark (id : String) : String :=
  match List.isPrefixOf? extractionMark.toList id.toList with
  | some rest => String.ofList rest
  | none => id

/-- The event of a counter of a step, if it has one. -/
def statusEvent? (step : Nat) (s : VertexStatus) : Option Event :=
  if s.name = uploadName then some (.contextUploadProgress step s.current)
  else if s.name = "" then none
  else some (.stepPullProgress step
    { message := s.name, detail := some ⟨s.current, s.total⟩, id := withoutMark s.id })

def logEvent (step : Nat) (l : VertexLog) : Event :=
  .stepOutput step (String.ofList (Utf8.decodeLossy l.data))

def findStep (digest : String) : Reporting Tracer Nat := do
  let t ← look id
  Action.ofExcept (t.stepOf digest)

/-- Reports the start or the restart of a vertex, if the record shows one. -/
def announce (handler : Handler) (v : Vertex) : Reporting Tracer Unit := do
  let t ← look id
  match t.step? v.digest with
  | none =>
    if v.isStarted || v.isCompleted then
      change (·.number v.digest)
      report handler (.stepStarting (t.numbered.length + 1) v.name)
  | some step =>
    if !v.isCompleted && t.finished.contains v.digest then
      change (·.reopen v.digest)
      report handler (.stepStarting step v.name)

def traceStatus (handler : Handler) (s : VertexStatus) : Reporting Tracer Unit := do
  let step ← findStep s.vertex
  match statusEvent? step s with
  | some event => report handler event
  | none => pure ()

def traceLog (handler : Handler) (l : VertexLog) : Reporting Tracer Unit := do
  let step ← findStep l.vertex
  report handler (logEvent step l)

/-- Reports the failure or the completion of a vertex, if the record shows one that is new. -/
def conclude (handler : Handler) (v : Vertex) : Reporting Tracer Unit := do
  if v.error ≠ "" then reportFailure handler v.error
  else
    let t ← look id
    if v.isCompleted && !t.finished.contains v.digest then
      let step ← findStep v.digest
      change (·.finish v.digest)
      report handler (.stepFinished step)

def trace (handler : Handler) (batch : Batch) : Reporting Tracer Unit := do
  let vertices ← Action.ofExcept (orderVertices batch.vertices)
  Action.forEach (announce handler) vertices
  Action.forEach (traceStatus handler) batch.statuses
  Action.forEach (traceLog handler) batch.logs
  Action.forEach (conclude handler) vertices

end Tracer

end BuildProgress
