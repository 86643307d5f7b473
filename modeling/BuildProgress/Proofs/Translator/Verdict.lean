import BuildProgress.Proofs.Legacy.Verdict
import BuildProgress.Proofs.Tracer.Verdict
import BuildProgress.Translator

/-!
# The verdict on a backend message

What becomes of a message can be told beforehand: whether it is refused, and if not, with which
failure it ends, if with one. The graph's translator looks at what a message carries first, so that
a message can be refused although it reports an error. What a message names as the image counts only
if all is well with it.
-/

namespace BuildProgress

set_option autoImplicit false

open Working

/-- The image that a message names to the translator of this builder. -/
def BackendMessage.imageId? : Builder → BackendMessage → Option String
  | .legacy, .response m => if m.failure? = none then m.payload.bind Message.imageId? else none
  | .buildKit, .response m =>
    if m.id = Message.imageIdMark then m.payload.bind Message.imageId? else none
  | _, _ => none

namespace Working

variable {σ α β : Type} {w : Working σ}

theorem after_present {f : σ → Transcript → Transcript} {next : Unit → Act σ β}
    {good : β → Working σ → Prop} {bad : BuildError → Working σ → Prop}
    (h : Action.Ends (next ()) (present f w).2 good bad) :
    Action.Ends (present f >>= next) w good bad :=
  .after_update h

theorem reporting_ends {act : Reporting σ α} {good : α → σ × Delivery → Prop}
    {bad : BuildError → σ × Delivery → Prop}
    (h : Action.Ends act (w.translator, w.delivery) good bad) : Action.Ends (reporting act) w
      (fun a u => good a (u.translator, u.delivery)) (fun e u => bad e (u.translator, u.delivery)) :=
  .within h

end Working

namespace GraphTranslator

/-- The image that a message with the image's mark has to name. -/
def readImageId (m : Message) : Except BuildError String :=
  match m.payload with
  | none => .error (.backendProtocol .imageIdWithoutPayload)
  | some payload =>
    match Message.imageId? payload with
    | none => .error (.backendProtocol .imageIdMalformed)
    | some id => .ok id

/-- The batch that a message with the trace's mark has to carry. -/
def readBatch (m : Message) : Except BuildError Batch :=
  match m.payload with
  | none => .error (.backendProtocol .traceWithoutPayload)
  | some payload => Batch.ofPayload payload

/-- Why what a message carries is refused, if it is. -/
def refusal? (t : Tracer) (m : Message) : Option BuildError :=
  if m.id = Message.imageIdMark then
    match readImageId m with
    | .ok _ => none
    | .error e => some e
  else if m.id = Message.traceMark then
    match readBatch m with
    | .ok batch => t.refusal? batch
    | .error e => some e
  else none

/-- The batch that a message carries. -/
def batch? (m : Message) : Option Batch :=
  if m.id = Message.traceMark then (readBatch m).toOption else none

def batchFailure? (m : Message) : Option String :=
  (batch? m).bind Batch.failure?

/-- The failure of a message: that of the batch in it comes before its own. -/
def failure? (m : Message) : Option String :=
  (batchFailure? m).or m.failure?

theorem onImageId_eq (m : Message) : onImageId m = Action.ofExcept (readImageId m) >>= fun id =>
    Action.update fun w => { w with translator := { w.translator with imageId := some id } } := by
  unfold onImageId readImageId
  cases m.payload with
  | none => rfl
  | some payload =>
    dsimp only
    cases Message.imageId? payload <;> rfl

theorem onTrace_eq (handler : Handler) (m : Message) :
    onTrace handler m = Action.ofExcept (readBatch m) >>= onBatch handler := by
  unfold onTrace readBatch
  cases m.payload <;> rfl

theorem imageId?_eq_of_mark {m : Message} (hmark : m.id = Message.imageIdMark) :
    BackendMessage.imageId? .buildKit (.response m) = (readImageId m).toOption := by
  have hnamed : BackendMessage.imageId? .buildKit (.response m) =
      m.payload.bind Message.imageId? := if_pos hmark
  rw [hnamed]
  unfold readImageId
  cases m.payload with
  | none => rfl
  | some payload =>
    dsimp only [Option.bind_some]
    cases Message.imageId? payload <;> rfl

theorem readImageId_ne_buildFailed {m : Message} {e : BuildError} (h : readImageId m = .error e)
    (message : String) : e ≠ .buildFailed message := by
  rintro rfl
  unfold readImageId at h
  split at h
  · cases h
  · split at h <;> cases h

theorem readBatch_ne_buildFailed {m : Message} {e : BuildError} (h : readBatch m = .error e)
    (message : String) : e ≠ .buildFailed message := by
  rintro rfl
  unfold readBatch Batch.ofPayload Batch.ofBytes at h
  split at h
  · cases h
  · split at h
    · split at h
      · split at h <;> cases h
      · cases h
    · cases h

theorem refusal?_ne_buildFailed {t : Tracer} {m : Message} {e : BuildError}
    (h : refusal? t m = some e) (message : String) : e ≠ .buildFailed message := by
  unfold refusal? at h
  split at h
  · cases hread : readImageId m with
    | ok _ =>
      rw [hread] at h
      cases h
    | error _ =>
      rw [hread] at h
      cases h
      exact readImageId_ne_buildFailed hread message
  · split at h
    · cases hread : readBatch m with
      | ok batch =>
        rw [hread] at h
        exact Tracer.refusal?_ne_buildFailed h message
      | error _ =>
        rw [hread] at h
        cases h
        exact readBatch_ne_buildFailed hread message
    · cases h

def Ready (w : Working GraphTranslator) : Prop :=
  Tracer.Ready (w.translator.tracer, w.delivery)

variable {handler : Handler} {w : Working GraphTranslator}

theorem tracing_ends {α : Type} {act : Reporting Tracer α} {good : α → Tracer × Delivery → Prop}
    {bad : BuildError → Tracer × Delivery → Prop}
    (h : Action.Ends act (w.translator.tracer, w.delivery) good bad) :
    Action.Ends (tracing act) w
      (fun a u => good a (u.translator.tracer, u.delivery) ∧
        u.translator.imageId = w.translator.imageId)
      (fun e u => bad e (u.translator.tracer, u.delivery)) := by
  unfold tracing reporting
  apply Action.Ends.within
  apply Action.Ends.within
  exact h.mono_good fun _ _ hgood => ⟨hgood, rfl⟩

namespace Ready

theorem onBatch (h : Ready w) (hgoes : handler.GoesOn) (batch : Batch) :
    Action.Ends (onBatch handler batch) w
      (fun _ u => Ready u ∧ u.translator.imageId = w.translator.imageId ∧
        judge (w.translator.tracer.refusal? batch) batch.failure? = .ok ())
      (fun e u => Delivery.Settled (Ready u) u.delivery e ∧
        judge (w.translator.tracer.refusal? batch) batch.failure? = .error e) := by
  have hshown : GraphTranslator.onBatch handler batch = Action.within id
      (fun _ u => (present (fun g => Transcript.showBatch g.tracer.step? batch) u).2)
      (tracing (Tracer.trace handler batch)) := rfl
  rw [hshown]
  apply Action.Ends.within
  apply (tracing_ends (Tracer.Ready.trace h hgoes batch)).mono_good
  rintro _ u ⟨⟨hready, hjudge⟩, himage⟩
  exact ⟨hready, himage, hjudge⟩

theorem onImageId (h : Ready w) (m : Message) : Action.Ends (onImageId m) w
    (fun _ u => Ready u ∧ ∃ id, readImageId m = .ok id ∧ u.translator.imageId = some id)
    (fun e u => Ready u ∧ readImageId m = .error e) := by
  rw [onImageId_eq]
  apply Action.Ends.bind
  cases readImageId m with
  | ok id => exact .of_ok rfl (.of_ok rfl ⟨h, id, rfl, rfl⟩)
  | error e => exact .of_error rfl ⟨h, rfl⟩

theorem onTrace (h : Ready w) (hgoes : handler.GoesOn) {m : Message}
    (hother : m.id ≠ Message.imageIdMark) (hmark : m.id = Message.traceMark) :
    Action.Ends (onTrace handler m) w
      (fun _ u => Ready u ∧ u.translator.imageId = w.translator.imageId ∧
        judge (refusal? w.translator.tracer m) (batchFailure? m) = .ok ())
      (fun e u => Delivery.Settled (Ready u) u.delivery e ∧
        judge (refusal? w.translator.tracer m) (batchFailure? m) = .error e) := by
  unfold refusal? batchFailure? batch?
  rw [if_neg hother, if_pos hmark, if_pos hmark, onTrace_eq]
  apply Action.Ends.bind
  cases hread : readBatch m with
  | ok batch => exact .of_ok rfl (h.onBatch hgoes batch)
  | error e => exact .of_error rfl ⟨.of_ne h (readBatch_ne_buildFailed hread), rfl⟩

theorem onContent (h : Ready w) (hgoes : handler.GoesOn) (m : Message) :
    Action.Ends (onContent handler m) w
      (fun _ u => Ready u ∧ judge (refusal? w.translator.tracer m) (batchFailure? m) = .ok () ∧
        u.translator.imageId =
          (BackendMessage.imageId? .buildKit (.response m)).or w.translator.imageId)
      (fun e u => Delivery.Settled (Ready u) u.delivery e ∧
        judge (refusal? w.translator.tracer m) (batchFailure? m) = .error e) := by
  unfold GraphTranslator.onContent
  by_cases himage : m.id = Message.imageIdMark
  · have hother : m.id ≠ Message.traceMark := by
      rw [himage]
      decide
    have hnone : batchFailure? m = none := by
      rw [batchFailure?, batch?, if_neg hother]
      rfl
    rw [if_pos himage, imageId?_eq_of_mark himage, hnone]
    unfold refusal?
    rw [if_pos himage]
    apply (h.onImageId m).mono
    · rintro _ u ⟨hready, id, hread, hid⟩
      rw [hread]
      exact ⟨hready, rfl, hid⟩
    · rintro e u ⟨hready, hread⟩
      refine ⟨.of_ne hready (readImageId_ne_buildFailed hread), ?_⟩
      rw [hread]
      rfl
  · have hsame : BackendMessage.imageId? .buildKit (.response m) = none := if_neg himage
    rw [if_neg himage, hsame]
    by_cases htrace : m.id = Message.traceMark
    · rw [if_pos htrace]
      exact (h.onTrace hgoes himage htrace).mono_good
        fun _ _ ⟨hready, hid, hjudge⟩ => ⟨hready, hjudge, hid⟩
    · unfold refusal? batchFailure? batch?
      rw [if_neg htrace, if_neg himage, if_neg htrace, if_neg htrace]
      exact .of_ok rfl ⟨h, rfl, rfl⟩

theorem fails (h : Ready w) (hgoes : handler.GoesOn) (message : String) :
    Action.Ends (tracing (reportFailure handler message)) w (fun _ _ => False)
      (fun e u => e = .buildFailed message ∧ u.delivery.ToldFailure message) := by
  apply (tracing_ends (reportFailure_ends hgoes h.opened message)).mono
  · exact fun _ _ hgood => hgood.1
  · exact fun _ _ hbad => ⟨hbad.1, hbad.2.2⟩

/-- The graph's translator comes to the verdict on the message. -/
theorem onMessage (h : Ready w) (hgoes : handler.GoesOn) (m : Message) :
    Action.Ends (onMessage handler m) w
      (fun _ u => Ready u ∧ judge (refusal? w.translator.tracer m) (failure? m) = .ok () ∧
        u.translator.imageId =
          (BackendMessage.imageId? .buildKit (.response m)).or w.translator.imageId)
      (fun e u => Delivery.Settled (Ready u) u.delivery e ∧
        judge (refusal? w.translator.tracer m) (failure? m) = .error e) := by
  unfold GraphTranslator.onMessage failure?
  apply Action.Ends.bind
  apply (h.onContent hgoes m).mono
  · rintro _ u ⟨hready, hjudge, himage⟩
    obtain ⟨hrefusal, hbatch⟩ := judge_eq_ok_iff.mp hjudge
    rw [hrefusal, hbatch, Option.none_or]
    cases m.failure? with
    | none => exact .of_ok rfl ⟨hready, rfl, himage⟩
    | some message =>
      have hfails : ∀ v : Working GraphTranslator, Ready v →
          Action.Ends (tracing (reportFailure handler message)) v
            (fun _ u => Ready u ∧ judge none (some message) = .ok () ∧ u.translator.imageId =
              (BackendMessage.imageId? .buildKit (.response m)).or w.translator.imageId)
            (fun e u => Delivery.Settled (Ready u) u.delivery e ∧
              judge none (some message) = .error e) := by
        intro v hv
        apply (hv.fails hgoes message).mono
        · exact fun _ _ hfalse => hfalse.elim
        · rintro e _ ⟨rfl, htold⟩
          exact ⟨htold, rfl⟩
      dsimp only
      split
      · apply after_present
        exact hfails _ hready
      · exact hfails u hready
  · rintro e u ⟨hsettled, hjudge⟩
    exact ⟨hsettled, judge_or_of_error hjudge⟩

end Ready

end GraphTranslator

namespace Translator

def builder : Translator → Builder
  | .legacy _ => .legacy
  | .graph _ => .buildKit

/-- The image that the messages have named. -/
def imageId? : Translator → Option String
  | .legacy parser => parser.imageId
  | .graph state => state.imageId

/-- Why a message is refused, if it is. Each translator refuses what its own backend does not send. -/
def refusal? : Translator → BackendMessage → Option BuildError
  | .legacy _, .response m => Legacy.Parser.refusal? m.stream
  | .legacy _, .status _ => some (.contractViolation .statusToLegacy)
  | .legacy _, .contextUpload _ => none
  | .graph state, .response m => GraphTranslator.refusal? state.tracer m
  | .graph state, .status batch => state.tracer.refusal? batch
  | .graph _, .contextUpload _ => some (.contractViolation .uploadToGraph)

/-- The failure that a message reports. -/
def failure? : Translator → BackendMessage → Option String
  | .legacy _, .response m => m.failure?
  | .graph _, .response m => GraphTranslator.failure? m
  | _, .status batch => batch.failure?
  | _, .contextUpload _ => none

theorem refusal?_ne_buildFailed {t : Translator} {message : BackendMessage} {e : BuildError}
    (h : t.refusal? message = some e) (text : String) : e ≠ .buildFailed text := by
  cases t with
  | legacy parser =>
    cases message with
    | response m => exact Legacy.Parser.refusal?_ne_buildFailed h text
    | status batch =>
      cases h
      exact nofun
    | contextUpload bytes => cases h
  | graph state =>
    cases message with
    | response m => exact GraphTranslator.refusal?_ne_buildFailed h text
    | status batch => exact Tracer.refusal?_ne_buildFailed h text
    | contextUpload bytes =>
      cases h
      exact nofun

/-- Delivery goes on, and what the translator takes for started was started. -/
def Ready (w : Working Translator) : Prop :=
  match w.translator with
  | .legacy parser => Legacy.Parser.Ready (parser, w.delivery)
  | .graph state => Tracer.Ready (state.tracer, w.delivery)

variable {handler : Handler} {w : Working Translator}

section Parts

variable {α : Type} {good : α → Working Translator → Prop} {bad : BuildError → Working Translator → Prop}

theorem asLegacy_ends {parser : Legacy.Parser} {act : Act Legacy.Parser α}
    (h : Action.Ends act { w with translator := parser }
      (fun a u => good a { u with translator := .legacy u.translator })
      (fun e u => bad e { u with translator := .legacy u.translator })) :
    Action.Ends (asLegacy parser act) w good bad := by
  have hwithin : asLegacy parser act = Action.within (fun w => { w with translator := parser })
      (fun _ u => { u with translator := .legacy u.translator }) act := rfl
  rw [hwithin]
  exact .within h

theorem asGraph_ends {state : GraphTranslator} {act : Act GraphTranslator α}
    (h : Action.Ends act { w with translator := state }
      (fun a u => good a { u with translator := .graph u.translator })
      (fun e u => bad e { u with translator := .graph u.translator })) :
    Action.Ends (asGraph state act) w good bad := by
  have hwithin : asGraph state act = Action.within (fun w => { w with translator := state })
      (fun _ u => { u with translator := .graph u.translator }) act := rfl
  rw [hwithin]
  exact .within h

end Parts

namespace Ready

theorem opened (h : Ready w) : w.delivery.phase = .receiving := by
  unfold Ready at h
  split at h
  · exact Legacy.Parser.Ready.opened h
  · exact Tracer.Ready.opened h

theorem start (builder : Builder) (delivery : Delivery) (transcript : Option Transcript)
    (hopen : delivery.phase = .receiving) :
    Ready { translator := .start builder, delivery, transcript } := by
  cases builder with
  | legacy => exact ⟨hopen, fun hstep => absurd rfl hstep⟩
  | buildKit => exact ⟨hopen, nofun⟩

/-- The translator comes to the verdict on the message. -/
theorem handle (h : Ready w) (hgoes : handler.GoesOn) (message : BackendMessage) :
    Action.Ends (handle handler message) w
      (fun _ u => Ready u ∧
        judge (w.translator.refusal? message) (w.translator.failure? message) = .ok () ∧
        u.translator.builder = w.translator.builder ∧ u.translator.imageId? =
          (message.imageId? w.translator.builder).or w.translator.imageId?)
      (fun e u => Delivery.Settled (Ready u) u.delivery e ∧
        judge (w.translator.refusal? message) (w.translator.failure? message) = .error e) := by
  obtain ⟨translator, delivery, transcript⟩ := w
  apply Action.Ends.after_view
  cases translator with
  | legacy parser =>
    have hparser : Legacy.Parser.Ready (parser, delivery) := h
    cases message with
    | response m =>
      apply asLegacy_ends
      apply after_present
      apply (reporting_ends (hparser.onMessage hgoes m)).mono
      · rintro _ u ⟨hready, hjudge, himage⟩
        refine ⟨hready, hjudge, rfl, ?_⟩
        rw [judge_eq_ok_iff] at hjudge
        have hnamed : BackendMessage.imageId? .legacy (.response m) =
            m.payload.bind Message.imageId? := if_pos hjudge.2
        exact himage.trans (congrArg (·.or parser.imageId) hnamed.symm)
      · exact fun _ _ hbad => hbad
    | status batch => exact .of_error rfl ⟨h, rfl⟩
    | contextUpload bytes =>
      apply asLegacy_ends
      apply (reporting_ends (hparser.onUpload hgoes bytes)).mono
      · exact fun _ u ⟨hready, hsame⟩ => ⟨hready, rfl, rfl, congrArg (·.imageId) hsame⟩
      · exact fun _ _ hfalse => hfalse.elim
  | graph state =>
    have hgraph : GraphTranslator.Ready { translator := state, delivery, transcript } := h
    cases message with
    | response m =>
      apply asGraph_ends
      apply (hgraph.onMessage hgoes m).mono
      · exact fun _ _ ⟨hready, hjudge, himage⟩ => ⟨hready, hjudge, rfl, himage⟩
      · exact fun _ _ hbad => hbad
    | status batch =>
      apply asGraph_ends
      apply (hgraph.onBatch hgoes batch).mono
      · exact fun _ _ ⟨hready, himage, hjudge⟩ => ⟨hready, hjudge, rfl, himage⟩
      · exact fun _ _ hbad => hbad
    | contextUpload bytes => exact .of_error rfl ⟨h, rfl⟩

theorem takeImageId (h : Ready w) (hgoes : handler.GoesOn) :
    Action.Ends (takeImageId handler) w
      (fun image u => Ready u ∧ image = w.translator.imageId?) (fun _ _ => False) := by
  obtain ⟨translator, delivery, transcript⟩ := w
  apply Action.Ends.after_view
  cases translator with
  | legacy parser =>
    have hparser : Legacy.Parser.Ready (parser, delivery) := h
    apply asLegacy_ends
    exact reporting_ends (w := ⟨parser, delivery, transcript⟩) (hparser.finish hgoes)
  | graph state =>
    apply Action.Ends.after_update
    have hgraph : Tracer.Ready (state.tracer, delivery) := h
    exact .of_ok rfl ⟨hgraph, rfl⟩

theorem finish (h : Ready w) (hgoes : handler.GoesOn) :
    Action.Ends (finish handler) w (fun image u => Ready u ∧ w.translator.imageId? = some image)
      (fun e u => Ready u ∧ w.translator.imageId? = none ∧
        e = .backendProtocol .noImageId) := by
  apply Action.Ends.bind
  apply (h.takeImageId hgoes).safely
  rintro image u ⟨hready, himage⟩
  cases image with
  | some id => exact .of_ok rfl ⟨hready, himage.symm⟩
  | none => exact .of_error rfl ⟨hready, himage.symm, rfl⟩

end Ready

end Translator

end BuildProgress
