import BuildProgress.Proofs.Wire.Field
import Mathlib.Data.List.Forall2

/-!
# Status messages as senders write them

A sender writes the parts of a batch with times in two numbers that it does not check. In every
message, also in one inside another, it may add fields that the reader does not know. The reader
takes from the bytes the batch with the same contents.
-/

namespace BuildProgress.Wire

set_option autoImplicit false

structure Stamp where
  seconds : Int64
  nanos : Int32
deriving DecidableEq, Repr

structure VertexMessage where
  digest : String := ""
  inputs : List String := []
  name : String := ""
  cached : Bool := false
  started : Option Stamp := none
  completed : Option Stamp := none
  error : String := ""
deriving DecidableEq, Repr

structure StatusMessage where
  id : String := ""
  vertex : String := ""
  name : String := ""
  current : Int64 := 0
  total : Int64 := 0
  timestamp : Option Stamp := none
  started : Option Stamp := none
  completed : Option Stamp := none
deriving DecidableEq, Repr

structure LogMessage where
  vertex : String := ""
  timestamp : Option Stamp := none
  stream : Int64 := 0
  data : Bytes := []
deriving DecidableEq, Repr

structure BatchMessage where
  vertices : List VertexMessage := []
  statuses : List StatusMessage := []
  logs : List LogMessage := []
deriving DecidableEq, Repr

section Contents

def Stamp.instant? (s : Stamp) : Option Instant :=
  Wire.instant? s.seconds.toInt s.nanos.toInt

def VertexMessage.vertex (m : VertexMessage) : Vertex where
  digest := m.digest
  inputs := m.inputs
  name := m.name
  started := m.started.bind Stamp.instant?
  completed := m.completed.bind Stamp.instant?
  error := m.error
  cached := m.cached

def StatusMessage.status (m : StatusMessage) : VertexStatus where
  id := m.id
  vertex := m.vertex
  name := m.name
  current := m.current.toInt
  total := m.total.toInt
  timestamp := m.timestamp.bind Stamp.instant?
  started := m.started.bind Stamp.instant?
  completed := m.completed.bind Stamp.instant?

def LogMessage.log (m : LogMessage) : VertexLog where
  vertex := m.vertex
  stream := m.stream.toInt
  data := m.data
  timestamp := m.timestamp.bind Stamp.instant?

def BatchMessage.batch (m : BatchMessage) : Batch where
  vertices := m.vertices.map VertexMessage.vertex
  statuses := m.statuses.map StatusMessage.status
  logs := m.logs.map LogMessage.log

end Contents

section Times

theorem instant?_of_neg {seconds nanos : Int} (h : seconds < 0 ∨ nanos < 0) :
    instant? seconds nanos = none :=
  if_pos h

theorem instant?_of_nonneg (seconds nanos : Nat) : instant? seconds nanos =
    if seconds + nanos / Nat.pow 10 9 < Nat.pow 2 63 then
      some ⟨seconds + nanos / Nat.pow 10 9, nanos % Nat.pow 10 9⟩
    else none :=
  if_neg (by omega)

end Times

section Encodings

def Stamp.records (s : Stamp) : List Record :=
  signedField 1 s.seconds.toInt ++ signedField 2 s.nanos.toInt

/-- A time stamp is a message in a field of its own, which is left out if there is none. -/
inductive StampField (number : Nat) : Option Stamp → List Record → Prop where
  | absent : StampField number none []
  | present {s : Stamp} {bytes : Bytes} : Padded (groupDepth - 2) 2 s.records bytes →
      StampField number (some s) [⟨number, .delimited bytes⟩]

/-- The fields of a vertex, those of its times given. -/
def VertexMessage.records (m : VertexMessage) (started completed : List Record) : List Record :=
  textField 1 m.digest ++ m.inputs.map (fun input => ⟨2, .delimited (Utf8.encode input.toList)⟩)
    ++ textField 3 m.name ++ boolField 4 m.cached ++ started ++ completed ++ textField 7 m.error

def StatusMessage.records (m : StatusMessage) (timestamp started completed : List Record) :
    List Record :=
  textField 1 m.id ++ textField 2 m.vertex ++ textField 3 m.name
    ++ signedField 4 m.current.toInt ++ signedField 5 m.total.toInt ++ timestamp ++ started
    ++ completed

def LogMessage.records (m : LogMessage) (timestamp : List Record) : List Record :=
  textField 1 m.vertex ++ timestamp ++ signedField 3 m.stream.toInt ++ bytesField 4 m.data

/-- The bytes are an encoding of the message, with unknown fields anywhere. -/
def VertexMessage.Encodes (m : VertexMessage) (bytes : Bytes) : Prop :=
  ∃ started completed, StampField 5 m.started started ∧ StampField 6 m.completed completed ∧
    Padded (groupDepth - 1) 7 (m.records started completed) bytes

def StatusMessage.Encodes (m : StatusMessage) (bytes : Bytes) : Prop :=
  ∃ timestamp started completed, StampField 6 m.timestamp timestamp ∧
    StampField 7 m.started started ∧ StampField 8 m.completed completed ∧
    Padded (groupDepth - 1) 8 (m.records timestamp started completed) bytes

def LogMessage.Encodes (m : LogMessage) (bytes : Bytes) : Prop :=
  ∃ timestamp, StampField 2 m.timestamp timestamp ∧
    Padded (groupDepth - 1) 4 (m.records timestamp) bytes

/-- Messages in a repeated field, from the bytes of each of them. -/
def messageField (number : Nat) (parts : List Bytes) : List Record :=
  parts.map fun bytes => ⟨number, .delimited bytes⟩

def BatchMessage.Encodes (m : BatchMessage) (bytes : Bytes) : Prop :=
  ∃ vertices statuses logs, List.Forall₂ VertexMessage.Encodes m.vertices vertices ∧
    List.Forall₂ StatusMessage.Encodes m.statuses statuses ∧
    List.Forall₂ LogMessage.Encodes m.logs logs ∧
    Padded groupDepth 3
      (messageField 1 vertices ++ messageField 2 statuses ++ messageField 3 logs) bytes

end Encodings

section Reading

variable {number : Nat} {records : List Record} {bytes : Bytes}

@[simp] theorem field_stampField {other : Nat} {s : Option Stamp} {rs : List Record}
    (h : StampField other s rs) : field number rs = if other = number then rs else [] := by
  refine field_of_number ?_ number
  cases h <;> simp

@[simp] theorem field_messageField {other : Nat} (parts : List Bytes) :
    field number (messageField other parts) =
      if other = number then messageField other parts else [] :=
  field_map Payload.delimited parts

theorem readStamp_stampField {s : Option Stamp} {rs : List Record} (h : StampField number s rs)
    (hfield : field number records = rs) :
    readStamp number records = some (s.bind Stamp.instant?) := by
  rw [readStamp, hfield]
  cases h with
  | absent => rfl
  | @present s bytes hpadded =>
    obtain ⟨inside, hread, hsame⟩ := hpadded.readRecords_eq
    have hseconds : lastOr Record.signed64? 0 1 inside = some s.seconds.toInt :=
      lastOr_signed64 (isSigned_toInt64 s.seconds) (by simp [hsame 1 (by omega), Stamp.records])
    have hnanos : lastOr Record.signed32? 0 2 inside = some s.nanos.toInt :=
      lastOr_signed32 (isSigned_toInt32 s.nanos) (by simp [hsame 2 (by omega), Stamp.records])
    simp [Record.bytes?, hread, hseconds, hnanos, Stamp.instant?]

theorem VertexMessage.Encodes.read {m : VertexMessage} (h : m.Encodes bytes) : ∃ records,
    readRecords (groupDepth - 1) bytes = some records ∧ readVertex records = some m.vertex := by
  obtain ⟨started, completed, hstarted, hcompleted, hpadded⟩ := h
  obtain ⟨records, hread, hsame⟩ := hpadded.readRecords_eq
  refine ⟨records, hread, ?_⟩
  have hfield : ∀ number ≤ 7, field number records = field number (m.records started completed) :=
    hsame
  simp only [VertexMessage.records, field_append, field_textField, field_map, field_boolField,
    field_stampField hstarted, field_stampField hcompleted] at hfield
  have hdigest : lastOr Record.text? "" 1 records = some m.digest :=
    lastOr_text (by simpa using hfield 1 (by omega))
  have hinputs : (field 2 records).mapM Record.text? = some m.inputs :=
    mapM_text? (by simpa using hfield 2 (by omega))
  have hname : lastOr Record.text? "" 3 records = some m.name :=
    lastOr_text (by simpa using hfield 3 (by omega))
  have hcached : lastOr Record.bool? false 4 records = some m.cached :=
    lastOr_bool (by simpa using hfield 4 (by omega))
  have hstarted := readStamp_stampField hstarted (by simpa using hfield 5 (by omega))
  have hcompleted := readStamp_stampField hcompleted (by simpa using hfield 6 (by omega))
  have herror : lastOr Record.text? "" 7 records = some m.error :=
    lastOr_text (by simpa using hfield 7 (by omega))
  simp [readVertex, hdigest, hinputs, hname, hcached, hstarted, hcompleted, herror,
    VertexMessage.vertex]

theorem StatusMessage.Encodes.read {m : StatusMessage} (h : m.Encodes bytes) : ∃ records,
    readRecords (groupDepth - 1) bytes = some records ∧ readStatus records = some m.status := by
  obtain ⟨timestamp, started, completed, htimestamp, hstarted, hcompleted, hpadded⟩ := h
  obtain ⟨records, hread, hsame⟩ := hpadded.readRecords_eq
  refine ⟨records, hread, ?_⟩
  have hfield : ∀ number ≤ 8, field number records =
      field number (m.records timestamp started completed) := hsame
  simp only [StatusMessage.records, field_append, field_textField, field_signedField,
    field_stampField htimestamp, field_stampField hstarted, field_stampField hcompleted] at hfield
  have hid : lastOr Record.text? "" 1 records = some m.id :=
    lastOr_text (by simpa using hfield 1 (by omega))
  have hvertex : lastOr Record.text? "" 2 records = some m.vertex :=
    lastOr_text (by simpa using hfield 2 (by omega))
  have hname : lastOr Record.text? "" 3 records = some m.name :=
    lastOr_text (by simpa using hfield 3 (by omega))
  have hcurrent : lastOr Record.signed64? 0 4 records = some m.current.toInt :=
    lastOr_signed64 (isSigned_toInt64 m.current) (by simpa using hfield 4 (by omega))
  have htotal : lastOr Record.signed64? 0 5 records = some m.total.toInt :=
    lastOr_signed64 (isSigned_toInt64 m.total) (by simpa using hfield 5 (by omega))
  have htimestamp := readStamp_stampField htimestamp (by simpa using hfield 6 (by omega))
  have hstarted := readStamp_stampField hstarted (by simpa using hfield 7 (by omega))
  have hcompleted := readStamp_stampField hcompleted (by simpa using hfield 8 (by omega))
  simp [readStatus, hid, hvertex, hname, hcurrent, htotal, htimestamp, hstarted, hcompleted,
    StatusMessage.status]

theorem LogMessage.Encodes.read {m : LogMessage} (h : m.Encodes bytes) : ∃ records,
    readRecords (groupDepth - 1) bytes = some records ∧ readLog records = some m.log := by
  obtain ⟨timestamp, htimestamp, hpadded⟩ := h
  obtain ⟨records, hread, hsame⟩ := hpadded.readRecords_eq
  refine ⟨records, hread, ?_⟩
  have hfield : ∀ number ≤ 4, field number records = field number (m.records timestamp) := hsame
  simp only [LogMessage.records, field_append, field_textField, field_signedField,
    field_bytesField, field_stampField htimestamp] at hfield
  have hvertex : lastOr Record.text? "" 1 records = some m.vertex :=
    lastOr_text (by simpa using hfield 1 (by omega))
  have htimestamp := readStamp_stampField htimestamp (by simpa using hfield 2 (by omega))
  have hstream : lastOr Record.signed64? 0 3 records = some m.stream.toInt :=
    lastOr_signed64 (isSigned_toInt64 m.stream) (by simpa using hfield 3 (by omega))
  have hdata : lastOr Record.bytes? [] 4 records = some m.data :=
    lastOr_bytes (by simpa using hfield 4 (by omega))
  simp [readLog, hvertex, htimestamp, hstream, hdata, LogMessage.log]

theorem readMessages_messageField {α β : Type} {Encodes : α → Bytes → Prop} {value : α → β}
    {read : List Record → Option β}
    (hread : ∀ m bytes, Encodes m bytes → ∃ records,
      readRecords (groupDepth - 1) bytes = some records ∧ read records = some (value m))
    {messages : List α} {parts : List Bytes} (h : List.Forall₂ Encodes messages parts)
    (hfield : field number records = messageField number parts) :
    readMessages read number records = some (messages.map value) := by
  rw [readMessages, hfield, messageField]
  clear hfield
  induction h with
  | nil => rfl
  | @cons m bytes messages parts hm _ ih =>
    obtain ⟨inside, hinside, hvalue⟩ := hread m bytes hm
    simp only [List.map_cons, List.mapM_cons, ih]
    simp [Record.bytes?, hinside, hvalue]

/-- What is read from an encoding is what the message says. -/
theorem BatchMessage.Encodes.read {m : BatchMessage} (h : m.Encodes bytes) :
    readBatch bytes = some m.batch := by
  obtain ⟨vertices, statuses, logs, hvertices, hstatuses, hlogs, hpadded⟩ := h
  obtain ⟨records, hread, hsame⟩ := hpadded.readRecords_eq
  have hfield : ∀ number ≤ 3, field number records = field number
      (messageField 1 vertices ++ messageField 2 statuses ++ messageField 3 logs) := hsame
  simp only [field_append, field_messageField] at hfield
  have hvertices := readMessages_messageField (fun _ _ h => VertexMessage.Encodes.read h) hvertices
    (by simpa using hfield 1 (by omega))
  have hstatuses := readMessages_messageField (fun _ _ h => StatusMessage.Encodes.read h) hstatuses
    (by simpa using hfield 2 (by omega))
  have hlogs := readMessages_messageField (fun _ _ h => LogMessage.Encodes.read h) hlogs
    (by simpa using hfield 3 (by omega))
  simp [readBatch, hread, hvertices, hstatuses, hlogs, BatchMessage.batch]

end Reading

end BuildProgress.Wire
