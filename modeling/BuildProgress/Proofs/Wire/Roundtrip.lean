import BuildProgress.Proofs.Base64
import BuildProgress.Proofs.Wire.Plain

/-!
# Batches survive the wire

A batch that is encoded as a message, then as base64 and as a JSON string comes back as it was,
whatever unknown fields the message has. A time that no moment says comes back as if it had been
left out.
-/

namespace BuildProgress

set_option autoImplicit false

section Times

/-- The nanoseconds since 1970. -/
def Instant.total (i : Instant) : Nat :=
  i.seconds * Nat.pow 10 9 + i.nanos

def Wire.Stamp.total (s : Wire.Stamp) : Int :=
  s.seconds.toInt * Nat.pow 10 9 + s.nanos.toInt

/-- The seconds of a time stamp with those that its nanoseconds make up. -/
def Wire.Stamp.carried (s : Wire.Stamp) : Nat :=
  s.seconds.toInt.toNat + s.nanos.toInt.toNat / Nat.pow 10 9

variable {s : Wire.Stamp}

theorem Wire.Stamp.carried_lt (s : Wire.Stamp) : s.carried < Nat.pow 2 64 := by
  have hseconds : s.seconds.toInt < 9223372036854775808 := s.seconds.toInt_lt
  have hnanos : s.nanos.toInt < 2147483648 := s.nanos.toInt_lt
  have hcarry : s.nanos.toInt.toNat / Nat.pow 10 9 ≤ s.nanos.toInt.toNat := Nat.div_le_self _ _
  have hlimit : Nat.pow 2 64 = 18446744073709551616 := rfl
  rw [carried, hlimit]
  omega

theorem Wire.Stamp.instant?_of_neg (h : s.seconds.toInt < 0 ∨ s.nanos.toInt < 0) :
    s.instant? = none :=
  Wire.instant?_of_neg h

theorem Wire.Stamp.instant?_of_nonneg (hseconds : 0 ≤ s.seconds.toInt)
    (hnanos : 0 ≤ s.nanos.toInt) : s.instant? =
      if s.carried < Nat.pow 2 63 then
        some ⟨s.carried, s.nanos.toInt.toNat % Nat.pow 10 9⟩
      else none := by
  have h := Wire.instant?_of_nonneg s.seconds.toInt.toNat s.nanos.toInt.toNat
  rwa [Int.toNat_of_nonneg hseconds, Int.toNat_of_nonneg hnanos] at h

/-- Nanoseconds beyond a second become seconds, and no time is lost by it. -/
theorem Wire.Stamp.instant?_of_carried_lt (hseconds : 0 ≤ s.seconds.toInt)
    (hnanos : 0 ≤ s.nanos.toInt) (h : s.carried < Nat.pow 2 63) :
    ∃ i, s.instant? = some i ∧ i.Representable ∧ (i.total : Int) = s.total := by
  refine ⟨_, (instant?_of_nonneg hseconds hnanos).trans (if_pos h),
    ⟨h, Nat.mod_lt _ (Nat.pow_pos (by omega))⟩, ?_⟩
  have hsplit := Nat.div_add_mod s.nanos.toInt.toNat (Nat.pow 10 9)
  have htotal : s.carried * Nat.pow 10 9 + s.nanos.toInt.toNat % Nat.pow 10 9 =
      s.seconds.toInt.toNat * Nat.pow 10 9 + s.nanos.toInt.toNat := by
    rw [carried, Nat.add_mul, Nat.add_assoc, Nat.mul_comm (_ / _), hsplit]
  rw [Instant.total, total, htotal, Int.natCast_add, Int.natCast_mul,
    Int.toNat_of_nonneg hseconds, Int.toNat_of_nonneg hnanos]

theorem Wire.Stamp.instant?_of_le_carried (h : Nat.pow 2 63 ≤ s.carried) : s.instant? = none := by
  by_cases hneg : s.seconds.toInt < 0 ∨ s.nanos.toInt < 0
  · exact instant?_of_neg hneg
  · rw [instant?_of_nonneg (by omega) (by omega), if_neg (by omega)]

end Times

section Payloads

/-- The payload of a trace message with the bytes. -/
def tracePayload (bytes : Wire.Bytes) : Json :=
  .string (some (String.ofList (Base64.encode bytes)))

theorem Batch.ofPayload_tracePayload (bytes : Wire.Bytes) :
    Batch.ofPayload (tracePayload bytes) = Batch.ofBytes bytes := by
  simp only [tracePayload, Batch.ofPayload, String.toList_ofList, Base64.decode?_encode]

theorem Wire.BatchMessage.Encodes.ofPayload {m : Wire.BatchMessage} {bytes : Wire.Bytes}
    (h : m.Encodes bytes) : Batch.ofPayload (tracePayload bytes) = .ok m.batch := by
  rw [Batch.ofPayload_tracePayload, Batch.ofBytes, h.read]

/-- Decoding undoes encoding, for every batch that fits its types and every encoding of it; the
writer makes one. Of any message the contents are read, with those of its times that are moments. -/
theorem Batch.payload_roundtrip :
    (∀ (b : Batch) (bytes : Wire.Bytes), b.Representable → b.message.Encodes bytes →
      Batch.ofPayload (tracePayload bytes) = .ok b) ∧
    (∀ b : Batch, b.Representable → (Wire.writeBatch b).length < Nat.pow 2 64 →
      b.message.Encodes (Wire.writeBatch b)) ∧
    (∀ (m : Wire.BatchMessage) (bytes : Wire.Bytes), m.Encodes bytes →
      Batch.ofPayload (tracePayload bytes) = .ok m.batch) ∧
    ∀ s : Wire.Stamp,
      (s.seconds.toInt < 0 ∨ s.nanos.toInt < 0 → s.instant? = none) ∧
      (0 ≤ s.seconds.toInt → 0 ≤ s.nanos.toInt → s.carried < Nat.pow 2 63 →
        ∃ i, s.instant? = some i ∧ i.Representable ∧ (i.total : Int) = s.total) ∧
      (Nat.pow 2 63 ≤ s.carried → s.instant? = none) ∧
      s.carried < Nat.pow 2 64 := by
  refine ⟨?_, ?_, ?_, ?_⟩
  · intro b bytes hb h
    rw [h.ofPayload, hb.batch_message]
  · intro b hb hlength
    exact hb.encodes hlength
  · intro m bytes h
    exact h.ofPayload
  · intro s
    exact ⟨Wire.Stamp.instant?_of_neg, Wire.Stamp.instant?_of_carried_lt,
      Wire.Stamp.instant?_of_le_carried, s.carried_lt⟩

end Payloads

section Samples

open Wire (Unknown)

/-- A group with a number in it. -/
def unknownGroup : Unknown :=
  .group ⟨15, by decide⟩
    (.field ⟨⟨1, .varint 7⟩, by decide, show 7 < Nat.pow 2 64 by decide⟩ .nil) .nil

def sampleBatch : Batch where
  logs := [{ stream := -1, data := [104, 105], timestamp := some ⟨10, 5⟩ }]

def sampleLogBytes : Wire.Bytes :=
  unknownGroup.write ++ sampleBatch.logs.flatMap fun log => Wire.writeRecords (Wire.logRecords log)

def sampleBytes : Wire.Bytes :=
  unknownGroup.write ++ Wire.writeRecords [⟨3, .delimited sampleLogBytes⟩]

theorem sampleBatch_representable : sampleBatch.Representable := by
  refine ⟨by simp [sampleBatch], by simp [sampleBatch], ?_⟩
  refine List.forall_mem_singleton.mpr ⟨⟨by decide, by decide⟩, ?_⟩
  intro i hi
  cases hi
  exact ⟨by decide, by decide⟩

theorem sampleBatch_encodes : sampleBatch.message.Encodes sampleBytes := by
  have hlog := sampleBatch_representable.logs _ List.mem_cons_self
  obtain ⟨timestamp, htimestamp, hpadded⟩ := hlog.encodes (by decide +kernel)
  have hsample : Wire.LogMessage.Encodes _ sampleLogBytes :=
    ⟨timestamp, htimestamp, .unknown (by decide) (by decide) hpadded⟩
  refine ⟨[], [], [sampleLogBytes], .nil, .nil, .cons hsample .nil, ?_⟩
  refine .unknown (by decide) (by decide) ?_
  exact (Wire.allPlain_delimited (by decide) _).padded _ _ (by decide +kernel)

theorem Batch.payload_roundtrip_sample : sampleBatch.Representable ∧
    sampleBatch.message.Encodes sampleBytes ∧
    Batch.ofPayload (tracePayload sampleBytes) = .ok sampleBatch :=
  ⟨sampleBatch_representable, sampleBatch_encodes,
    Batch.payload_roundtrip.1 _ _ sampleBatch_representable sampleBatch_encodes⟩

/-- An unknown group in a group, and so on. -/
def nestedGroups : Nat → Unknown
  | 0 => .nil
  | n + 1 => .group ⟨4, by decide⟩ (nestedGroups n) .nil

/-- Its nanoseconds carry it past the last second of a moment. -/
def lateStamp : Wire.Stamp :=
  ⟨9223372036854775807, 1000000000⟩

def lateVertex : Wire.VertexMessage where
  started := some lateStamp

def lateMessage : Wire.BatchMessage where
  vertices := [lateVertex]

def lateVertexBytes : Wire.Bytes :=
  Wire.writeRecords [⟨5, .delimited (Wire.writeRecords lateStamp.records)⟩]

def lateBytes : Wire.Bytes :=
  Wire.writeRecords [⟨1, .delimited lateVertexBytes⟩]

theorem lateMessage_encodes : lateMessage.Encodes lateBytes := by
  have hplain : Wire.AllPlain lateStamp.records := by
    simp [Wire.Stamp.records, Wire.isNumber_iff]
  have hstamp := hplain.padded (Wire.groupDepth - 2) 2 (by decide +kernel)
  have hvertex : lateVertex.Encodes lateVertexBytes := by
    refine ⟨_, [], .present hstamp, .absent, ?_⟩
    exact (Wire.allPlain_delimited (by decide) _).padded _ _ (by decide +kernel)
  refine ⟨[lateVertexBytes], [], [], .cons hvertex .nil, .nil, .nil, ?_⟩
  exact (Wire.allPlain_delimited (by decide) _).padded _ _ (by decide +kernel)

/-- Groups that are nested deeper than the reader follows are refused, and a time that carries past
the last second is missing. -/
theorem Batch.payload_lost :
    ((∀ r ∈ (nestedGroups 101).records, 3 < r.number) ∧
      Batch.ofPayload (tracePayload ((nestedGroups 101).write ++ Wire.writeBatch {})) =
        .error (.backendProtocol .traceMalformed)) ∧
    (lateMessage.Encodes lateBytes ∧
      Batch.ofPayload (tracePayload lateBytes) = .ok { vertices := [{ started := none }] }) := by
  refine ⟨⟨by decide, ?_⟩, lateMessage_encodes, ?_⟩
  · have hread : Wire.readBatch ((nestedGroups 101).write ++ Wire.writeBatch {}) = none := by
      decide +kernel
    rw [ofPayload_tracePayload, ofBytes, hread]
  · have hread : Wire.readBatch lateBytes = some { vertices := [{ started := none }] } := by
      decide +kernel
    rw [ofPayload_tracePayload, ofBytes, hread]

end Samples

end BuildProgress
