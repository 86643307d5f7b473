import BuildProgress.Base64
import BuildProgress.Error
import BuildProgress.Graph.Batch
import BuildProgress.Json.Basic
import BuildProgress.Text.Utf8
import BuildProgress.Wire.Record

/-!
# Status batches on the wire

Each part of a batch is a message of numbered fields. Records with other numbers are ignored. Of a
repeated single value the last one counts; of a repeated single message, all records count together.
A trace message carries the bytes as base64 in a JSON string.
-/

namespace BuildProgress.Wire

set_option autoImplicit false

def field (number : Nat) (records : List Record) : List Record :=
  records.filter (·.number == number)

def Record.text? (r : Record) : Option String := do
  let bytes ← r.bytes?
  let text ← Utf8.decode? bytes
  some (String.ofList text)

/-- The last value of a field, all of whose payloads must be of its shape. -/
def lastOr {α : Type} (read : Record → Option α) (default : α) (number : Nat)
    (records : List Record) : Option α := do
  let values ← (field number records).mapM read
  some (values.getLastD default)

/-- The depth of groups that may be read over in a batch; one less in each message inside it. -/
def groupDepth : Nat := 100

/-- The moment of a time stamp. There is none if a part is negative or if the seconds, with what the
nanoseconds carry, do not fit 63 bits. -/
def instant? (seconds nanos : Int) : Option Instant :=
  if seconds < 0 ∨ nanos < 0 then none
  else
    let total := seconds.toNat + nanos.toNat / Nat.pow 10 9
    if total < Nat.pow 2 63 then some ⟨total, nanos.toNat % Nat.pow 10 9⟩ else none

def readStamp (number : Nat) (records : List Record) : Option (Option Instant) := do
  let parts ← (field number records).mapM fun r => do readRecords (groupDepth - 2) (← r.bytes?)
  let inside := parts.flatten
  let seconds ← lastOr Record.signed64? 0 1 inside
  let nanos ← lastOr Record.signed32? 0 2 inside
  some (if parts.isEmpty then none else instant? seconds nanos)

def readVertex (records : List Record) : Option Vertex := do
  let digest ← lastOr Record.text? "" 1 records
  let inputs ← (field 2 records).mapM Record.text?
  let name ← lastOr Record.text? "" 3 records
  let cached ← lastOr Record.bool? false 4 records
  let started ← readStamp 5 records
  let completed ← readStamp 6 records
  let error ← lastOr Record.text? "" 7 records
  some { digest, inputs, name, started, completed, error, cached }

def readStatus (records : List Record) : Option VertexStatus := do
  let id ← lastOr Record.text? "" 1 records
  let vertex ← lastOr Record.text? "" 2 records
  let name ← lastOr Record.text? "" 3 records
  let current ← lastOr Record.signed64? 0 4 records
  let total ← lastOr Record.signed64? 0 5 records
  let timestamp ← readStamp 6 records
  let started ← readStamp 7 records
  let completed ← readStamp 8 records
  some { id, vertex, name, current, total, timestamp, started, completed }

def readLog (records : List Record) : Option VertexLog := do
  let vertex ← lastOr Record.text? "" 1 records
  let timestamp ← readStamp 2 records
  let stream ← lastOr Record.signed64? 0 3 records
  let data ← lastOr Record.bytes? [] 4 records
  some { vertex, stream, data, timestamp }

def readMessages {α : Type} (read : List Record → Option α) (number : Nat)
    (records : List Record) : Option (List α) :=
  (field number records).mapM fun r => do read (← readRecords (groupDepth - 1) (← r.bytes?))

def readBatch (bytes : Bytes) : Option Batch := do
  let records ← readRecords groupDepth bytes
  let vertices ← readMessages readVertex 1 records
  let statuses ← readMessages readStatus 2 records
  let logs ← readMessages readLog 3 records
  some { vertices, statuses, logs }

/-- Text as a field; empty text is left out. -/
def textField (number : Nat) (text : String) : List Record :=
  if text = "" then [] else [⟨number, .delimited (Utf8.encode text.toList)⟩]

def bytesField (number : Nat) (bytes : Bytes) : List Record :=
  if bytes = [] then [] else [⟨number, .delimited bytes⟩]

def signedField (number : Nat) (n : Int) : List Record :=
  if n = 0 then [] else [⟨number, .varint (n % Nat.pow 2 64).toNat⟩]

def boolField (number : Nat) (b : Bool) : List Record :=
  if b then [⟨number, .varint 1⟩] else []

def stampRecords (i : Instant) : List Record :=
  signedField 1 i.seconds ++ signedField 2 i.nanos

def stampField (number : Nat) : Option Instant → List Record
  | none => []
  | some i => [⟨number, .delimited (writeRecords (stampRecords i))⟩]

def vertexRecords (v : Vertex) : List Record :=
  textField 1 v.digest ++ v.inputs.map (fun input => ⟨2, .delimited (Utf8.encode input.toList)⟩)
    ++ textField 3 v.name ++ boolField 4 v.cached ++ stampField 5 v.started
    ++ stampField 6 v.completed ++ textField 7 v.error

def statusRecords (s : VertexStatus) : List Record :=
  textField 1 s.id ++ textField 2 s.vertex ++ textField 3 s.name ++ signedField 4 s.current
    ++ signedField 5 s.total ++ stampField 6 s.timestamp ++ stampField 7 s.started
    ++ stampField 8 s.completed

def logRecords (l : VertexLog) : List Record :=
  textField 1 l.vertex ++ stampField 2 l.timestamp ++ signedField 3 l.stream
    ++ bytesField 4 l.data

def batchRecords (b : Batch) : List Record :=
  b.vertices.map (fun v => ⟨1, .delimited (writeRecords (vertexRecords v))⟩)
    ++ b.statuses.map (fun s => ⟨2, .delimited (writeRecords (statusRecords s))⟩)
    ++ b.logs.map (fun l => ⟨3, .delimited (writeRecords (logRecords l))⟩)

def writeBatch (b : Batch) : Bytes :=
  writeRecords (batchRecords b)

end BuildProgress.Wire

namespace BuildProgress

def Batch.ofBytes (bytes : List UInt8) : Except BuildError Batch :=
  match Wire.readBatch bytes with
  | some batch => .ok batch
  | none => .error (.backendProtocol .traceMalformed)

def Batch.ofPayload (payload : Json) : Except BuildError Batch :=
  match payload with
  | .string (some text) =>
    match Base64.decode? text.toList with
    | some bytes => Batch.ofBytes bytes
    | none => .error (.backendProtocol .traceNotBase64)
  | _ => .error (.backendProtocol .traceNotText)

end BuildProgress
