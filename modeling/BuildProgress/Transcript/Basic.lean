import BuildProgress.Graph.Order
import BuildProgress.Message
import BuildProgress.Text.Lines
import BuildProgress.Text.Utf8
import BuildProgress.Transcript.Style

/-!
# The transcript of a build

What a person reads while an image is built. Messages of the legacy builder are shown as its own
client shows them; of a status batch every record gives a line that begins with the number of its
step. Each record is written at once, and after a write that fails nothing is written any more.
Nothing that a transcript does can be seen by the build.
-/

namespace BuildProgress

set_option autoImplicit false

open BuildProgress.Text

structure Transcript where
  color : Bool
  /-- How many more writes the writer accepts; no limit if there is none. -/
  room : Option Nat := none
  /-- What the clock will show, one reading after the other, in seconds since the start. -/
  readings : List String := []
  written : List String := []
  attempts : Nat := 0
  failed : Bool := false
  announced : List Nat := []
  /-- The steps whose end has been shown, since their last restart. -/
  finished : List Nat := []
deriving DecidableEq, Repr

namespace Transcript

def text (t : Transcript) : String :=
  String.join t.written

def write (record : String) (t : Transcript) : Transcript :=
  if t.failed then t
  else match t.room with
    | none => { t with written := t.written ++ [record], attempts := t.attempts + 1 }
    | some 0 => { t with failed := true, attempts := t.attempts + 1 }
    | some (n + 1) =>
      { t with room := some n, written := t.written ++ [record], attempts := t.attempts + 1 }

/-- The next reading of the clock. A clock that nothing is known of stands at zero. -/
def elapsed (t : Transcript) : String :=
  t.readings.headD "0.000"

def noteReading (t : Transcript) : Transcript :=
  { t with readings := t.readings.tail }

def stepLine (step : Nat) (line : String) (t : Transcript) : Transcript :=
  t.write ("#" ++ toString step ++ " " ++ line ++ "\n")

/-- The byte counts of a progress report, shown if the total is known. -/
def countText (progress : Option ByteCount) : String :=
  match progress with
  | some count =>
    if 0 < count.total then
      " " ++ String.ofList (signedDecimal count.current) ++ "/"
        ++ String.ofList (signedDecimal count.total)
    else ""
  | none => ""

def progressLine (m : Message) : String :=
  (if m.id = "" then "" else m.id ++ ": ") ++ m.status ++ countText m.progress ++ "\n"

/-- What is shown of a message: its error, or else its text as it is, or else its progress. -/
def messageRecord? (color : Bool) (m : Message) : Option String :=
  match m.failure? with
  | some failure => some (paint color .failure ("ERROR: " ++ failure ++ "\n"))
  | none =>
    if m.stream ≠ "" then some m.stream
    else if m.status = "" then none
    else some (paint color .dimmed (progressLine m))

def showMessage (m : Message) (t : Transcript) : Transcript :=
  match messageRecord? t.color m with
  | some record => t.write record
  | none => t

def showName (step : Nat) (name : String) (t : Transcript) : Transcript :=
  if step ∈ t.announced then t
  else stepLine step (paint t.color .bold name) { t with announced := t.announced ++ [step] }

def noteEnd (step : Nat) (t : Transcript) : Transcript :=
  { t with finished := t.finished ++ [step] }

def noteOpen (step : Nat) (t : Transcript) : Transcript :=
  { t with finished := t.finished.filter (· != step) }

/-- Shows the end of a step: that its result was cached, or its error, or that it is done. The end
is shown once until the step is seen open again. -/
def showEnd (step : Nat) (v : Vertex) (t : Transcript) : Transcript :=
  if v.cached ∧ step ∉ t.finished then
    stepLine step (paint t.color .cyan "CACHED") (t.noteEnd step)
  else if v.error ≠ "" then
    stepLine step (paint t.color .red ("ERROR: " ++ v.error)) t
  else if v.isCompleted then
    if step ∈ t.finished then t
    else
      stepLine step (paint t.color .green "DONE" ++ " " ++ t.elapsed) (t.noteEnd step).noteReading
  else t.noteOpen step

def showVertex (stepOf : String → Option Nat) (t : Transcript) (v : Vertex) : Transcript :=
  match stepOf v.digest with
  | some step => (t.showName step v.name).showEnd step v
  | none => t

/-- Shows a counter that has come to its end and has an id. -/
def showStatus (stepOf : String → Option Nat) (t : Transcript) (s : VertexStatus) : Transcript :=
  match stepOf s.vertex with
  | some step =>
    if s.completed.isSome ∧ s.id ≠ "" then stepLine step (s.id ++ " done") t else t
  | none => t

/-- Shows the lines of an output, all with one reading of the clock. -/
def showLog (stepOf : String → Option Nat) (t : Transcript) (l : VertexLog) : Transcript :=
  match stepOf l.vertex with
  | some step =>
    (Text.lines (Utf8.decodeLossy l.data)).foldl (fun u line =>
      stepLine step (paint u.color .dimmed t.elapsed ++ " " ++ String.ofList line) u) t.noteReading
  | none => t

def shownVertices (vertices : List Vertex) : List Vertex :=
  match orderVertices vertices with
  | .ok ordered => ordered
  | .error _ => vertices

/-- Shows a batch. What belongs to a vertex without a step is left out. -/
def showBatch (stepOf : String → Option Nat) (b : Batch) (t : Transcript) : Transcript :=
  let t := (shownVertices b.vertices).foldl (showVertex stepOf) t
  let t := b.statuses.foldl (showStatus stepOf) t
  b.logs.foldl (showLog stepOf) t

end Transcript

end BuildProgress
