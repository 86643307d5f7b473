import BuildProgress.Delivery
import BuildProgress.Text.Shortest

/-!
# Metrics

Counts of builds, events and aborts, and the durations of builds, in the text form that a monitor
collects: for each metric that was recorded its description, if metrics were described, its type,
and a line for each set of labels. Labels that are written alike count as one set.
-/

namespace BuildProgress

set_option autoImplicit false

open BuildProgress.Text

structure Metrics where
  described : Bool := false
  builds : Counter (String × String) := []
  /-- Durations by builder, each with those of the same builder in the order of their records. -/
  durations : List (String × List Float) := []
  events : Counter Event.Kind := []
  aborts : Nat := 0
deriving Repr

namespace Metrics

def buildsName : String × String :=
  ("buildtrace_builds_total", "Total number of image builds (by backend, outcome)")

def durationName : String × String :=
  ("buildtrace_build_duration_seconds",
    "Image build duration from submission to outcome (by backend)")

def eventsName : String × String :=
  ("buildtrace_events_total", "Total number of progress events delivered to callers (by kind)")

def abortsName : String × String :=
  ("buildtrace_callback_aborts_total",
    "Total number of builds aborted by the progress callback")

def addUnder {α : Type} (label : String) (value : α) :
    List (String × List α) → List (String × List α)
  | [] => [(label, [value])]
  | (k, values) :: rest =>
    if k = label then (k, values ++ [value]) :: rest else (k, values) :: addUnder label value rest

def countBuild (backend outcome : String) (m : Metrics) : Metrics :=
  { m with builds := m.builds.bump (backend, outcome) }

def recordBuild (backend outcome : String) (seconds : Float) (m : Metrics) : Metrics :=
  { m.countBuild backend outcome with durations := addUnder backend seconds m.durations }

def ofDelivery (d : Delivery) : Metrics :=
  { events := d.counts, aborts := d.aborts }

/-- The rest of a label as it stands in quotes, where a backslash before it is `held` back or not.
The quote, the backslash and the line feed are escaped. An escape of one of the first two that is
there already stays as it is, and a line feed is written before the backslash that is held. -/
def escapedFrom (held : Bool) : List Char → List Char
  | [] => if held then ['\\', '\\'] else []
  | '\n' :: rest => '\\' :: 'n' :: escapedFrom held rest
  | '"' :: rest => '\\' :: '"' :: escapedFrom false rest
  | '\\' :: rest =>
    if held then '\\' :: '\\' :: escapedFrom false rest else escapedFrom true rest
  | c :: rest => (if held then ['\\', '\\', c] else [c]) ++ escapedFrom false rest

def escapedLabel (label : String) : String :=
  String.ofList (escapedFrom false label.toList)

def labelEntry (label : String × String) : String :=
  label.1 ++ "=\"" ++ escapedLabel label.2 ++ "\""

/-- A set of labels, such as `\x7bkind="step_output"\x7d`; nothing without labels. -/
def labelText (labels : List (String × String)) : String :=
  if labels.isEmpty then "" else "\x7b" ++ ",".intercalate (labels.map labelEntry) ++ "\x7d"

def valueLine (name : String) (labels : List (String × String)) (value : String) : String :=
  name ++ labelText labels ++ " " ++ value

def metricLines (described : Bool) (metric : String × String) (kind : String)
    (values : List String) : List String :=
  if values.isEmpty then []
  else
    (if described then ["# HELP " ++ metric.1 ++ " " ++ metric.2] else [])
      ++ ["# TYPE " ++ metric.1 ++ " " ++ kind] ++ values

/-- Keeps the last of the entries whose keys are written alike. -/
def lastWritten {κ α : Type} (write : κ → String) : List (κ × α) → List (κ × α)
  | [] => []
  | (k, x) :: rest =>
    if rest.any fun entry => write entry.1 == write k then lastWritten write rest
    else (k, x) :: lastWritten write rest

def buildLabels (key : String × String) : List (String × String) :=
  [("backend", key.1), ("outcome", key.2)]

def buildLines (m : Metrics) : List String :=
  (lastWritten (fun key => labelText (buildLabels key)) m.builds).map fun (key, n) =>
    valueLine buildsName.1 (buildLabels key) (toString n)

def blockSize : Nat := 64

/-- Durations in the order in which they are added up: by blocks, of which the last one comes first.
The order matters because every addition rounds. Each block spends one unit of `fuel`. -/
def inBlocks (fuel : Nat) (values : List Float) : List Float :=
  match fuel with
  | 0 => values
  | fuel + 1 =>
    if values.length ≤ blockSize then values
    else inBlocks fuel (values.drop blockSize) ++ values.take blockSize

def sumOf (values : List Float) : Float :=
  values.foldl (· + ·) 0.0

def durationsLike (name : String) (entries : List (String × List Float)) : List Float :=
  (entries.filter fun entry => escapedLabel entry.1 == escapedLabel name).flatMap fun entry =>
    inBlocks entry.2.length entry.2

def durationLines (m : Metrics) : List String :=
  (lastWritten escapedLabel m.durations).flatMap fun (backend, _) =>
    let values := durationsLike backend m.durations
    [valueLine (durationName.1 ++ "_sum") [("backend", backend)]
        (String.ofList (shortestDecimal (sumOf values))),
      valueLine (durationName.1 ++ "_count") [("backend", backend)] (toString values.length)]

def eventLines (m : Metrics) : List String :=
  m.events.map fun (kind, n) => valueLine eventsName.1 [("kind", kind.label)] (toString n)

def abortLines (m : Metrics) : List String :=
  if m.aborts = 0 then [] else [valueLine abortsName.1 [] (toString m.aborts)]

/-- Inserts a line before the lines that do not come before it. -/
def insertLine (line : String) : List String → List String
  | [] => [line]
  | l :: rest => if line ≤ l then line :: l :: rest else l :: insertLine line rest

def sortLines (lines : List String) : List String :=
  lines.foldr insertLine []

def lines (m : Metrics) : List String :=
  sortLines <|
    metricLines m.described buildsName "counter" m.buildLines
      ++ metricLines m.described durationName "summary" m.durationLines
      ++ metricLines m.described eventsName "counter" m.eventLines
      ++ metricLines m.described abortsName "counter" m.abortLines

end Metrics

end BuildProgress
