import BuildProgress.Message
import BuildProgress.Proofs.Json.Plain
import BuildProgress.Proofs.Json.Record

/-!
# Messages survive JSON

An object says a message if its members tell each of the fields, in whatever order and among whatever
other members. Such an object is read as the message.
-/

namespace BuildProgress

set_option autoImplicit false

open BuildProgress.Text

open Json

section Parts

/-- The counts fit 64 bits. -/
def ByteCount.InRange (c : ByteCount) : Prop :=
  isSigned64 c.current = true ∧ isSigned64 c.total = true

/-- A value says counts: it is an object with their fields. -/
def ByteCount.SaidBy (c : ByteCount) (j : Json) : Prop :=
  ∃ members, j = ofMembers members ∧
    Tells members "current" (· = ofInt c.current) (c.current = 0) ∧
    Tells members "total" (· = ofInt c.total) (c.total = 0)

theorem ByteCount.SaidBy.read {c : ByteCount} {j : Json} (h : c.SaidBy j) (hrange : c.InRange) :
    Message.readByteCount j = some c := by
  obtain ⟨members, rfl, hcurrent, htotal⟩ := h
  obtain ⟨current, hcurrent, hcurrentFound⟩ := hcurrent.found
  obtain ⟨total, htotal, htotalFound⟩ := htotal.found
  have hfields := fields?_ofMembers (.cons hcurrent (.cons htotal .nil))
  have hreadCurrent := hcurrentFound.fieldOr signed? 0
    (by rintro _ rfl; exact signed?_ofInt hrange.1) Eq.symm
  have hreadTotal := htotalFound.fieldOr signed? 0
    (by rintro _ rfl; exact signed?_ofInt hrange.2) Eq.symm
  simp [Message.readByteCount, hfields, hreadCurrent, hreadTotal]

def ErrorDetail.InRange (d : ErrorDetail) : Prop :=
  isSigned64 d.code = true

def ErrorDetail.SaidBy (d : ErrorDetail) (j : Json) : Prop :=
  ∃ members, j = ofMembers members ∧
    Tells members "code" (· = ofInt d.code) (d.code = 0) ∧
    Tells members "message" (· = ofString d.message) (d.message = "")

theorem ErrorDetail.SaidBy.read {d : ErrorDetail} {j : Json} (h : d.SaidBy j) (hrange : d.InRange) :
    Message.readErrorDetail j = some d := by
  obtain ⟨members, rfl, hcode, hmessage⟩ := h
  obtain ⟨code, hcode, hcodeFound⟩ := hcode.found
  obtain ⟨message, hmessage, hmessageFound⟩ := hmessage.found
  have hfields := fields?_ofMembers (.cons hcode (.cons hmessage .nil))
  have hreadCode := hcodeFound.fieldOr signed? 0
    (by rintro _ rfl; exact signed?_ofInt hrange) Eq.symm
  have hreadMessage := hmessageFound.fieldOr text? ""
    (by rintro _ rfl; exact text?_ofString _) Eq.symm
  simp [Message.readErrorDetail, hfields, hreadCode, hreadMessage]

end Parts

namespace Message

/-- What a message may hold to be sent as JSON: numbers of 64 bits, and a payload that is plain, says
something and is not nested too deep. -/
structure Sendable (m : Message) : Prop where
  progress : ∀ c, m.progress = some c → c.InRange
  error : ∀ d, m.error = some d → d.InRange
  payload : ∀ j, m.payload = some j → j ≠ .null ∧ j.Plain ∧ j.depth ≤ payloadLevels

/-- The members of an object say a message. -/
structure SaidBy (m : Message) (members : List (String × Json)) : Prop where
  stream : Tells members "stream" (· = ofString m.stream) (m.stream = "")
  status : Tells members "status" (· = ofString m.status) (m.status = "")
  progress : Tells members "progressDetail" (SaysOption ByteCount.SaidBy m.progress)
    (m.progress = none)
  id : Tells members "id" (· = ofString m.id) (m.id = "")
  error : Tells members "errorDetail" (SaysOption ErrorDetail.SaidBy m.error) (m.error = none)
  errorText : Tells members "error" (· = ofString m.errorText) (m.errorText = "")
  payload : Tells members "aux" (SaysOption (fun payload j => j = payload) m.payload)
    (m.payload = none)

variable {m : Message} {members : List (String × Json)}

theorem SaidBy.read (h : m.SaidBy members) (hsend : m.Sendable) :
    ofJson? (ofMembers members) = some m := by
  obtain ⟨stream, hstream, hstreamFound⟩ := h.stream.found
  obtain ⟨status, hstatus, hstatusFound⟩ := h.status.found
  obtain ⟨progress, hprogress, hprogressFound⟩ := h.progress.found
  obtain ⟨id, hid, hidFound⟩ := h.id.found
  obtain ⟨error, herror, herrorFound⟩ := h.error.found
  obtain ⟨errorText, herrorText, herrorTextFound⟩ := h.errorText.found
  obtain ⟨payload, hpayload, hpayloadFound⟩ := h.payload.found
  have hfields := fields?_ofMembers (.cons hstream (.cons hstatus (.cons hprogress (.cons hid
    (.cons herror (.cons herrorText (.cons hpayload .nil)))))))
  have htext : ∀ s j, j = ofString s → text? j = some s := by
    rintro s _ rfl
    exact text?_ofString s
  have hreadProgress := hprogressFound.optionalField readByteCount
    fun c j hc hholds => hholds.read (hsend.progress c hc)
  have hreadError := herrorFound.optionalField readErrorDetail
    fun d j hd hholds => hholds.read (hsend.error d hd)
  have hreadPayload := hpayloadFound.optionalField (keep? payloadLevels) (by
    rintro p j hp rfl
    obtain ⟨-, hplain, hdepth⟩ := hsend.payload j hp
    exact hplain.keep? hdepth)
  simp [ofJson?, keys, hfields, hreadProgress, hreadError, hreadPayload,
    hstreamFound.fieldOr text? "" (htext m.stream) Eq.symm, hstatusFound.fieldOr text? "" (htext m.status) Eq.symm,
    hidFound.fieldOr text? "" (htext m.id) Eq.symm, herrorTextFound.fieldOr text? "" (htext m.errorText) Eq.symm]

/-- The record of a message says it. -/
theorem saidBy_members (m : Message) (hpayload : m.payload ≠ some .null) : m.SaidBy m.members := by
  have hprogress : SaysOption ByteCount.SaidBy m.progress
      ((m.progress.map byteCountJson).getD .null) := by
    cases m.progress with
    | none => rfl
    | some c => exact ⟨nofun, _, rfl, .inl ⟨_, rfl, rfl⟩, .inl ⟨_, rfl, rfl⟩⟩
  have herror : SaysOption ErrorDetail.SaidBy m.error ((m.error.map errorDetailJson).getD .null) := by
    cases m.error with
    | none => rfl
    | some d => exact ⟨nofun, _, rfl, .inl ⟨_, rfl, rfl⟩, .inl ⟨_, rfl, rfl⟩⟩
  have hpayload : SaysOption (fun payload j => j = payload) m.payload (m.payload.getD .null) := by
    cases hm : m.payload with
    | none => rfl
    | some payload =>
      refine ⟨fun hnull => hpayload ?_, rfl⟩
      rw [hm]
      exact congrArg some hnull
  exact {
    stream := .inl ⟨_, rfl, rfl⟩
    status := .inl ⟨_, rfl, rfl⟩
    progress := .inl ⟨_, hprogress, rfl⟩
    id := .inl ⟨_, rfl, rfl⟩
    error := .inl ⟨_, herror, rfl⟩
    errorText := .inl ⟨_, rfl, rfl⟩
    payload := .inl ⟨_, hpayload, rfl⟩ }

theorem plain_ofInt {n : Int} (h : isSigned64 n = true) : (ofInt n).Plain := by
  simp [isSigned64] at h
  simp only [ofInt, Plain, Number.Plain, Nat.pow_eq, Nat.reducePow]
  omega

/-- The record of a message that may be sent is plain. -/
theorem Sendable.plain_toJson (h : m.Sendable) : m.toJson.Plain := by
  have hprogress : ((m.progress.map byteCountJson).getD .null).Plain := by
    cases hm : m.progress with
    | none => trivial
    | some c =>
      obtain ⟨hcurrent, htotal⟩ := h.progress c hm
      have hfields := And.intro (plain_ofInt hcurrent) (plain_ofInt htotal)
      simpa [byteCountJson, ofMembers, Plain, PlainMembers] using hfields
  have herror : ((m.error.map errorDetailJson).getD .null).Plain := by
    cases hm : m.error with
    | none => trivial
    | some d =>
      have hcode : (ofInt d.code).Plain := plain_ofInt (h.error d hm)
      simpa [errorDetailJson, ofMembers, Plain, PlainMembers, ofString] using hcode
  have hpayload : (m.payload.getD .null).Plain := by
    cases hm : m.payload with
    | none => trivial
    | some payload => exact (h.payload payload hm).2.1
  simp [toJson, members, keys, ofMembers, Plain, PlainMembers, ofString, hprogress, herror, hpayload]

end Message

end BuildProgress
