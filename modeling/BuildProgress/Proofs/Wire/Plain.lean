import BuildProgress.Proofs.Wire.Message

/-!
# Batches as the writer encodes them

Every batch whose numbers fit their types is the contents of a message, and the bytes that the
writer makes of it are an encoding of this message: the one without unknown fields.
-/

namespace BuildProgress

set_option autoImplicit false

section Ranges

/-- The moment is one that a time stamp says. -/
structure Instant.Representable (i : Instant) : Prop where
  seconds : i.seconds < Nat.pow 2 63
  nanos : i.nanos < Nat.pow 10 9

structure Vertex.Representable (v : Vertex) : Prop where
  started : ∀ i ∈ v.started, i.Representable
  completed : ∀ i ∈ v.completed, i.Representable

structure VertexStatus.Representable (s : VertexStatus) : Prop where
  current : Wire.IsSigned 63 s.current
  total : Wire.IsSigned 63 s.total
  timestamp : ∀ i ∈ s.timestamp, i.Representable
  started : ∀ i ∈ s.started, i.Representable
  completed : ∀ i ∈ s.completed, i.Representable

structure VertexLog.Representable (l : VertexLog) : Prop where
  stream : Wire.IsSigned 63 l.stream
  timestamp : ∀ i ∈ l.timestamp, i.Representable

/-- The counters are numbers of 64 bits and the moments lie in the range of time stamps. -/
structure Batch.Representable (b : Batch) : Prop where
  vertices : ∀ v ∈ b.vertices, v.Representable
  statuses : ∀ s ∈ b.statuses, s.Representable
  logs : ∀ l ∈ b.logs, l.Representable

end Ranges

section Messages

def Instant.stamp (i : Instant) : Wire.Stamp where
  seconds := .ofInt i.seconds
  nanos := .ofInt i.nanos

def Vertex.message (v : Vertex) : Wire.VertexMessage where
  digest := v.digest
  inputs := v.inputs
  name := v.name
  cached := v.cached
  started := v.started.map Instant.stamp
  completed := v.completed.map Instant.stamp
  error := v.error

def VertexStatus.message (s : VertexStatus) : Wire.StatusMessage where
  id := s.id
  vertex := s.vertex
  name := s.name
  current := .ofInt s.current
  total := .ofInt s.total
  timestamp := s.timestamp.map Instant.stamp
  started := s.started.map Instant.stamp
  completed := s.completed.map Instant.stamp

def VertexLog.message (l : VertexLog) : Wire.LogMessage where
  vertex := l.vertex
  timestamp := l.timestamp.map Instant.stamp
  stream := .ofInt l.stream
  data := l.data

def Batch.message (b : Batch) : Wire.BatchMessage where
  vertices := b.vertices.map Vertex.message
  statuses := b.statuses.map VertexStatus.message
  logs := b.logs.map VertexLog.message

end Messages

section Contents

variable {i : Instant} {t : Option Instant}

theorem Instant.Representable.toInt_seconds (h : i.Representable) :
    i.stamp.seconds.toInt = i.seconds := by
  have hseconds : i.seconds < 9223372036854775808 := h.seconds
  exact Int64.toInt_ofInt_of_le (by omega) (by omega)

theorem Instant.Representable.toInt_nanos (h : i.Representable) :
    i.stamp.nanos.toInt = i.nanos := by
  have hnanos : i.nanos < 1000000000 := h.nanos
  exact Int32.toInt_ofInt_of_le (by omega) (by omega)

theorem Instant.Representable.instant?_stamp (h : i.Representable) :
    i.stamp.instant? = some i := by
  have hcarry : i.nanos / Nat.pow 10 9 = 0 := Nat.div_eq_of_lt h.nanos
  have hrest : i.nanos % Nat.pow 10 9 = i.nanos := Nat.mod_eq_of_lt h.nanos
  have hfits : i.seconds + i.nanos / Nat.pow 10 9 < Nat.pow 2 63 := by
    rw [hcarry]
    exact h.seconds
  rw [Wire.Stamp.instant?, h.toInt_seconds, h.toInt_nanos, Wire.instant?_of_nonneg, if_pos hfits,
    hcarry, hrest]
  rfl

theorem instants_stamps (h : ∀ i ∈ t, i.Representable) :
    (t.map Instant.stamp).bind Wire.Stamp.instant? = t := by
  cases t with
  | none => rfl
  | some i => exact (h i rfl).instant?_stamp

theorem Vertex.Representable.vertex_message {v : Vertex} (h : v.Representable) :
    v.message.vertex = v := by
  simp [message, Wire.VertexMessage.vertex, instants_stamps h.started, instants_stamps h.completed]

theorem VertexStatus.Representable.status_message {s : VertexStatus} (h : s.Representable) :
    s.message.status = s := by
  simp [message, Wire.StatusMessage.status, h.current.toInt_ofInt, h.total.toInt_ofInt,
    instants_stamps h.timestamp, instants_stamps h.started, instants_stamps h.completed]

theorem VertexLog.Representable.log_message {l : VertexLog} (h : l.Representable) :
    l.message.log = l := by
  simp [message, Wire.LogMessage.log, h.stream.toInt_ofInt, instants_stamps h.timestamp]

theorem map_map_of_mem {α β : Type} {f : α → β} {g : β → α} {as : List α}
    (h : ∀ a ∈ as, g (f a) = a) : (as.map f).map g = as := by
  rw [List.map_map]
  exact (List.map_congr_left h).trans (List.map_id as)

/-- No batch in the range of its types is lost in the form of a message. -/
theorem Batch.Representable.batch_message {b : Batch} (h : b.Representable) :
    b.message.batch = b := by
  simp only [message, Wire.BatchMessage.batch,
    map_map_of_mem fun v hv => (h.vertices v hv).vertex_message,
    map_map_of_mem fun s hs => (h.statuses s hs).status_message,
    map_map_of_mem fun l hl => (h.logs l hl).log_message]

end Contents

namespace Wire

section Plain

variable {records : List Record} {number : Nat}

/-- A record as the writer makes it, of any length. -/
inductive Record.Plain : Record → Prop where
  | varint {number value : Nat} : IsNumber number → value < Nat.pow 2 64 →
      Plain ⟨number, .varint value⟩
  | delimited {number : Nat} {bytes : Bytes} : IsNumber number →
      Plain ⟨number, .delimited bytes⟩

theorem Record.Plain.fits {r : Record} (h : r.Plain) (hlength : r.write.length < Nat.pow 2 64) :
    r.Fits := by
  cases h with
  | varint hnumber hvalue => exact ⟨hnumber, hvalue⟩
  | @delimited number bytes hnumber =>
    refine ⟨hnumber, Nat.lt_of_le_of_lt ?_ hlength⟩
    simp only [Record.write, List.length_append]
    omega

theorem length_write_le {r : Record} (hr : r ∈ records) :
    r.write.length ≤ (writeRecords records).length := by
  obtain ⟨before, after, rfl⟩ := List.append_of_mem hr
  simp only [writeRecords, List.flatMap_append, List.flatMap_cons, List.length_append]
  omega

theorem length_le_of_mem {bytes : Bytes} (h : ⟨number, .delimited bytes⟩ ∈ records) :
    bytes.length ≤ (writeRecords records).length := by
  refine Nat.le_trans ?_ (length_write_le h)
  simp only [Record.write, List.length_append]
  omega

def AllPlain (records : List Record) : Prop :=
  ∀ r ∈ records, r.Plain

/-- Plain records that are not too long in all are written as they are. -/
theorem AllPlain.padded (h : AllPlain records) (depth known : Nat)
    (hlength : (writeRecords records).length < Nat.pow 2 64) :
    Padded depth known records (writeRecords records) :=
  Padded.of_fits depth known fun r hr =>
    (h r hr).fits (Nat.lt_of_le_of_lt (length_write_le hr) hlength)

@[simp] theorem allPlain_append (a b : List Record) :
    AllPlain (a ++ b) ↔ AllPlain a ∧ AllPlain b :=
  List.forall_mem_append

theorem allPlain_delimited (hnumber : IsNumber number) (bytes : Bytes) :
    AllPlain [⟨number, .delimited bytes⟩] :=
  List.forall_mem_singleton.mpr (.delimited hnumber)

@[simp] theorem allPlain_textField (hnumber : IsNumber number) (text : String) :
    AllPlain (textField number text) := by
  rw [textField]
  split
  · exact List.forall_mem_nil _
  · exact allPlain_delimited hnumber _

@[simp] theorem allPlain_bytesField (hnumber : IsNumber number) (bytes : Bytes) :
    AllPlain (bytesField number bytes) := by
  rw [bytesField]
  split
  · exact List.forall_mem_nil _
  · exact allPlain_delimited hnumber _

@[simp] theorem allPlain_signedField (hnumber : IsNumber number) (n : Int) :
    AllPlain (signedField number n) := by
  rw [signedField]
  split
  · exact List.forall_mem_nil _
  · refine List.forall_mem_singleton.mpr (.varint hnumber ?_)
    have hpos : 0 < Nat.pow 2 64 := Nat.pow_pos (by omega)
    have hlow : 0 ≤ n % Nat.pow 2 64 := Int.emod_nonneg n (by omega)
    have hhigh : n % Nat.pow 2 64 < Nat.pow 2 64 := Int.emod_lt_of_pos n (by omega)
    omega

@[simp] theorem allPlain_boolField (hnumber : IsNumber number) (b : Bool) :
    AllPlain (boolField number b) := by
  rw [boolField]
  split
  · exact List.forall_mem_singleton.mpr (.varint hnumber (by decide))
  · exact List.forall_mem_nil _

@[simp] theorem allPlain_stampField (hnumber : IsNumber number) (t : Option Instant) :
    AllPlain (stampField number t) := by
  cases t with
  | none => exact List.forall_mem_nil _
  | some i => exact allPlain_delimited hnumber _

@[simp] theorem allPlain_map {α : Type} (hnumber : IsNumber number) (encode : α → Bytes)
    (items : List α) : AllPlain (items.map fun item => ⟨number, .delimited (encode item)⟩) :=
  List.forall_mem_map.mpr fun _ _ => .delimited hnumber

theorem isNumber_iff : IsNumber number ↔ 1 ≤ number ∧ number < 536870912 :=
  Iff.rfl

theorem allPlain_stampRecords (i : Instant) : AllPlain (stampRecords i) := by
  simp [stampRecords, isNumber_iff]

theorem allPlain_vertexRecords (v : Vertex) : AllPlain (vertexRecords v) := by
  simp [vertexRecords, isNumber_iff]

theorem allPlain_statusRecords (s : VertexStatus) : AllPlain (statusRecords s) := by
  simp [statusRecords, isNumber_iff]

theorem allPlain_logRecords (l : VertexLog) : AllPlain (logRecords l) := by
  simp [logRecords, isNumber_iff]

theorem allPlain_batchRecords (b : Batch) : AllPlain (batchRecords b) := by
  simp [batchRecords, isNumber_iff]

end Plain

end Wire

section Encodings

theorem Instant.Representable.records_stamp {i : Instant} (h : i.Representable) :
    i.stamp.records = Wire.stampRecords i := by
  rw [Wire.Stamp.records, h.toInt_seconds, h.toInt_nanos, Wire.stampRecords]

/-- A moment that fits is written as the time stamp that says it. -/
theorem stampField_stamp {number : Nat} {t : Option Instant} {records : List Wire.Record}
    (h : ∀ i ∈ t, i.Representable) (hsubset : Wire.stampField number t ⊆ records)
    (hlength : (Wire.writeRecords records).length < Nat.pow 2 64) :
    Wire.StampField number (t.map Instant.stamp) (Wire.stampField number t) := by
  cases t with
  | none => exact .absent
  | some i =>
    have hinside : (Wire.writeRecords (Wire.stampRecords i)).length < Nat.pow 2 64 :=
      Nat.lt_of_le_of_lt (Wire.length_le_of_mem (hsubset List.mem_cons_self)) hlength
    refine .present ?_
    rw [(h i rfl).records_stamp]
    exact (Wire.allPlain_stampRecords i).padded _ _ hinside

theorem Vertex.Representable.encodes {v : Vertex} (h : v.Representable)
    (hlength : (Wire.writeRecords (Wire.vertexRecords v)).length < Nat.pow 2 64) :
    v.message.Encodes (Wire.writeRecords (Wire.vertexRecords v)) := by
  have hstarted : Wire.stampField 5 v.started ⊆ Wire.vertexRecords v := by
    intro r hr
    simp [Wire.vertexRecords, hr]
  have hcompleted : Wire.stampField 6 v.completed ⊆ Wire.vertexRecords v := by
    intro r hr
    simp [Wire.vertexRecords, hr]
  exact ⟨_, _, stampField_stamp h.started hstarted hlength,
    stampField_stamp h.completed hcompleted hlength,
    (Wire.allPlain_vertexRecords v).padded _ _ hlength⟩

theorem VertexStatus.Representable.encodes {s : VertexStatus} (h : s.Representable)
    (hlength : (Wire.writeRecords (Wire.statusRecords s)).length < Nat.pow 2 64) :
    s.message.Encodes (Wire.writeRecords (Wire.statusRecords s)) := by
  have htimestamp : Wire.stampField 6 s.timestamp ⊆ Wire.statusRecords s := by
    intro r hr
    simp [Wire.statusRecords, hr]
  have hstarted : Wire.stampField 7 s.started ⊆ Wire.statusRecords s := by
    intro r hr
    simp [Wire.statusRecords, hr]
  have hcompleted : Wire.stampField 8 s.completed ⊆ Wire.statusRecords s := by
    intro r hr
    simp [Wire.statusRecords, hr]
  refine ⟨_, _, _, stampField_stamp h.timestamp htimestamp hlength,
    stampField_stamp h.started hstarted hlength,
    stampField_stamp h.completed hcompleted hlength, ?_⟩
  rw [Wire.StatusMessage.records]
  simp only [message, h.current.toInt_ofInt, h.total.toInt_ofInt]
  exact (Wire.allPlain_statusRecords s).padded _ _ hlength

theorem VertexLog.Representable.encodes {l : VertexLog} (h : l.Representable)
    (hlength : (Wire.writeRecords (Wire.logRecords l)).length < Nat.pow 2 64) :
    l.message.Encodes (Wire.writeRecords (Wire.logRecords l)) := by
  have htimestamp : Wire.stampField 2 l.timestamp ⊆ Wire.logRecords l := by
    intro r hr
    simp [Wire.logRecords, hr]
  refine ⟨_, stampField_stamp h.timestamp htimestamp hlength, ?_⟩
  rw [Wire.LogMessage.records]
  simp only [message, h.stream.toInt_ofInt]
  exact (Wire.allPlain_logRecords l).padded _ _ hlength

theorem forall₂_map_map {α β : Type} {Encodes : β → Wire.Bytes → Prop} {f : α → β}
    {write : α → Wire.Bytes} {as : List α} (h : ∀ a ∈ as, Encodes (f a) (write a)) :
    List.Forall₂ Encodes (as.map f) (as.map write) := by
  rw [List.forall₂_map_left_iff, List.forall₂_map_right_iff]
  exact List.forall₂_same.mpr h

/-- The bytes that the writer makes are an encoding of the batch, if their number fits 64 bits. -/
theorem Batch.Representable.encodes {b : Batch} (h : b.Representable)
    (hlength : (Wire.writeBatch b).length < Nat.pow 2 64) :
    b.message.Encodes (Wire.writeBatch b) := by
  have hinside : ∀ number bytes, ⟨number, .delimited bytes⟩ ∈ Wire.batchRecords b →
      bytes.length < Nat.pow 2 64 :=
    fun _ _ hmem => Nat.lt_of_le_of_lt (Wire.length_le_of_mem hmem) hlength
  refine ⟨b.vertices.map fun v => Wire.writeRecords (Wire.vertexRecords v),
    b.statuses.map fun s => Wire.writeRecords (Wire.statusRecords s),
    b.logs.map fun l => Wire.writeRecords (Wire.logRecords l), ?_, ?_, ?_, ?_⟩
  · refine forall₂_map_map fun v hv => (h.vertices v hv).encodes (hinside 1 _ ?_)
    simp only [Wire.batchRecords, List.mem_append]
    exact .inl (.inl (List.mem_map_of_mem hv))
  · refine forall₂_map_map fun s hs => (h.statuses s hs).encodes (hinside 2 _ ?_)
    simp only [Wire.batchRecords, List.mem_append]
    exact .inl (.inr (List.mem_map_of_mem hs))
  · refine forall₂_map_map fun l hl => (h.logs l hl).encodes (hinside 3 _ ?_)
    simp only [Wire.batchRecords, List.mem_append]
    exact .inr (List.mem_map_of_mem hl)
  · simp only [Wire.messageField, List.map_map]
    exact (Wire.allPlain_batchRecords b).padded _ _ hlength

end Encodings

end BuildProgress
