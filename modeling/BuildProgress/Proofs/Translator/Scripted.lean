import BuildProgress.Proofs.Legacy.Telling
import BuildProgress.Translator

/-!
# The scripts of the translators

Nothing that a translator does with a message depends on the handler, other than through the answers
of the guard. So everything up to the handling of one message follows a script.
-/

namespace BuildProgress

set_option autoImplicit false

namespace Tracer

theorem findStep_scripted (digest : String) :
    Scripted Prod.mk (fun _ : Handler => findStep digest) := by
  unfold findStep
  apply Scripted.bind (.look id)
  intro t
  exact .ofExcept (t.stepOf digest)

theorem announce_scripted (v : Vertex) : Scripted Prod.mk (announce · v) := by
  unfold announce
  apply Scripted.bind (.look id)
  intro t
  cases t.step? v.digest with
  | none =>
    dsimp only
    split
    · exact .bind (.change _) fun _ => .report _
    · exact .pure ()
  | some step =>
    dsimp only
    split
    · exact .bind (.change _) fun _ => .report _
    · exact .pure ()

theorem traceStatus_scripted (s : VertexStatus) : Scripted Prod.mk (traceStatus · s) := by
  unfold traceStatus
  apply Scripted.bind (findStep_scripted s.vertex)
  intro step
  cases statusEvent? step s with
  | some event => exact .report event
  | none => exact .pure ()

theorem traceLog_scripted (l : VertexLog) : Scripted Prod.mk (traceLog · l) := by
  unfold traceLog
  apply Scripted.bind (findStep_scripted l.vertex)
  intro step
  exact .report (logEvent step l)

theorem conclude_scripted (v : Vertex) : Scripted Prod.mk (conclude · v) := by
  unfold conclude
  split
  · exact .reportFailure v.error
  · apply Scripted.bind (.look id)
    intro t
    split
    · apply Scripted.bind (findStep_scripted v.digest)
      intro step
      exact .bind (.change _) fun _ => .report _
    · exact .pure ()

theorem trace_scripted (batch : Batch) : Scripted Prod.mk (trace · batch) := by
  unfold trace
  apply Scripted.bind (.ofExcept (orderVertices batch.vertices))
  intro vertices
  apply Scripted.bind (.forEach announce_scripted vertices)
  intro _
  apply Scripted.bind (.forEach traceStatus_scripted batch.statuses)
  intro _
  apply Scripted.bind (.forEach traceLog_scripted batch.logs)
  intro _
  exact .forEach conclude_scripted vertices

end Tracer

namespace Legacy.Parser

theorem onMessage_scripted (m : Message) : Scripted Prod.mk (onMessage · m) := by
  intro p
  rcases onMessage_tells p m with ⟨_, _, _, script, hscript, _⟩ | ⟨_, _, _, _, script, hscript, _⟩
  · exact ⟨script, hscript⟩
  · exact ⟨script, hscript⟩

theorem onUpload_scripted (bytes : Int) : Scripted Prod.mk (onUpload · bytes) := by
  intro p
  obtain ⟨script, hscript, _⟩ := onUpload_tells p bytes
  exact ⟨script, hscript⟩

theorem finish_scripted : Scripted Prod.mk finish := by
  intro p
  obtain ⟨script, hscript, _⟩ := finish_tells p
  exact ⟨script, hscript⟩

end Legacy.Parser

namespace Working

variable {σ α : Type}

/-- A translator at work, taken apart: all but the guard, and the guard. -/
def assemble (rest : σ × Option Transcript) (d : Delivery) : Working σ :=
  { translator := rest.1, delivery := d, transcript := rest.2 }

theorem reporting_scripted {act : Handler → Reporting σ α} (h : Scripted Prod.mk act) :
    Scripted assemble (fun handler => reporting (act handler)) := by
  rintro ⟨s, transcript⟩
  obtain ⟨script, hscript⟩ := h s
  let f : σ → σ × Option Transcript := fun s => (s, transcript)
  let g : σ × Delivery → Working σ := fun r => assemble (f r.1) r.2
  exact ⟨script.map f, hscript.map f g (fun _ _ => rfl) fun _ _ => rfl⟩

/-- The same moment of a build that the caller has not cancelled. -/
def calm (w : Working σ) : Working σ :=
  { w with delivery := w.delivery.calm }

/-- To a handler that never stops, all is told as to one that only listens. -/
theorem calm_of_scripted {act : Handler → Act σ α} (h : Scripted assemble act) {handler : Handler}
    (hgoes : handler.GoesOn) (w : Working σ) :
    act .quiet w.calm = ((act handler w).1, (act handler w).2.calm) := by
  obtain ⟨script, hscript⟩ := h (w.translator, w.transcript)
  have hrun : act handler w = _ := hscript handler w.delivery
  have hquiet : act .quiet w.calm = _ := hscript .quiet w.delivery.calm
  rw [hrun, hquiet, script.play_calm hgoes]
  rfl

theorem present_scripted (f : σ → Transcript → Transcript) :
    Scripted assemble (fun _ : Handler => present f) :=
  .silent (fun _ => .ok ()) (fun rest => (rest.1, rest.2.map (f rest.1))) fun _ _ _ => rfl

end Working

namespace GraphTranslator

open Working

theorem tracing_scripted {α : Type} {act : Handler → Reporting Tracer α}
    (h : Scripted Prod.mk act) : Scripted assemble (fun handler => tracing (act handler)) := by
  unfold tracing
  apply reporting_scripted
  intro state
  obtain ⟨script, hscript⟩ := h state.tracer
  let f : Tracer → GraphTranslator := fun t => { state with tracer := t }
  let g : Tracer × Delivery → GraphTranslator × Delivery := fun r => (f r.1, r.2)
  exact ⟨script.map f, hscript.map f g (fun _ _ => rfl) fun _ _ => rfl⟩

theorem onBatch_scripted (batch : Batch) : Scripted assemble (onBatch · batch) := by
  intro rest
  obtain ⟨script, hscript⟩ := tracing_scripted (Tracer.trace_scripted batch) rest
  let shown : GraphTranslator → Transcript → Transcript :=
    fun state => Transcript.showBatch state.tracer.step? batch
  let f : GraphTranslator × Option Transcript → GraphTranslator × Option Transcript :=
    fun rest => (rest.1, rest.2.map (shown rest.1))
  let g : Working GraphTranslator → Working GraphTranslator := fun w => (present shown w).2
  exact ⟨script.map f, hscript.map f g (fun _ _ => rfl) fun _ _ => rfl⟩

theorem onImageId_scripted (m : Message) : Scripted assemble (fun _ : Handler => onImageId m) := by
  unfold onImageId
  cases m.payload with
  | none => exact .ofExcept (.error _)
  | some payload =>
    dsimp only
    cases Message.imageId? payload with
    | none => exact .ofExcept (.error _)
    | some id =>
      let name : GraphTranslator × Option Transcript → GraphTranslator × Option Transcript :=
        fun rest => ({ rest.1 with imageId := some id }, rest.2)
      exact .silent (fun _ => .ok ()) name fun _ _ _ => rfl

theorem onTrace_scripted (m : Message) : Scripted assemble (onTrace · m) := by
  unfold onTrace
  cases m.payload with
  | none => exact .ofExcept (.error _)
  | some payload =>
    apply Scripted.bind (.ofExcept (Batch.ofPayload payload))
    intro batch
    exact onBatch_scripted batch

theorem onContent_scripted (m : Message) : Scripted assemble (onContent · m) := by
  unfold onContent
  split
  · exact onImageId_scripted m
  · split
    · exact onTrace_scripted m
    · exact present_scripted _

theorem onMessage_scripted (m : Message) : Scripted assemble (onMessage · m) := by
  unfold onMessage
  apply Scripted.bind (onContent_scripted m)
  intro _
  cases m.failure? with
  | none => exact .pure ()
  | some message =>
    have hfailure := tracing_scripted (Scripted.reportFailure message)
    dsimp only
    split
    · exact .bind (present_scripted _) fun _ => hfailure
    · exact hfailure

end GraphTranslator

namespace Translator

open Working

/-- An action of one of the two translators, carried out by the translator that wraps it. -/
theorem wrapped_scripted {σ α : Type} (wrap : σ → Translator) (state : σ)
    {act : Handler → Act σ α} (h : Scripted assemble act) :
    Scripted assemble fun handler (w : Working Translator) =>
      let (outcome, after) := act handler { w with translator := state }
      (outcome, { after with translator := wrap after.translator }) := by
  rintro ⟨_, transcript⟩
  obtain ⟨script, hscript⟩ := h (state, transcript)
  let f : σ × Option Transcript → Translator × Option Transcript := fun rest => (wrap rest.1, rest.2)
  let g : Working σ → Working Translator := fun w => { w with translator := wrap w.translator }
  exact ⟨script.map f, hscript.map f g (fun _ _ => rfl) fun _ _ => rfl⟩

theorem asLegacy_scripted {α : Type} (parser : Legacy.Parser)
    {act : Handler → Act Legacy.Parser α} (h : Scripted assemble act) :
    Scripted assemble (fun handler => asLegacy parser (act handler)) :=
  wrapped_scripted .legacy parser h

theorem asGraph_scripted {α : Type} (state : GraphTranslator)
    {act : Handler → Act GraphTranslator α} (h : Scripted assemble act) :
    Scripted assemble (fun handler => asGraph state (act handler)) :=
  wrapped_scripted .graph state h

theorem view_scripted : Scripted assemble
    (fun _ : Handler => (Action.view Working.translator : Act Translator Translator)) :=
  .silent (fun rest => .ok rest.1) id fun _ _ _ => rfl

theorem handle_scripted (message : BackendMessage) : Scripted assemble (handle · message) := by
  unfold handle
  apply Scripted.bind view_scripted
  intro translator
  cases translator with
  | legacy parser =>
    cases message with
    | response m =>
      apply asLegacy_scripted
      unfold Legacy.Parser.onShownMessage
      apply Scripted.bind (present_scripted _)
      intro _
      exact reporting_scripted (Legacy.Parser.onMessage_scripted m)
    | status batch => exact .ofExcept (.error _)
    | contextUpload bytes =>
      exact asLegacy_scripted parser (reporting_scripted (Legacy.Parser.onUpload_scripted bytes))
  | graph state =>
    cases message with
    | response m => exact asGraph_scripted state (GraphTranslator.onMessage_scripted m)
    | status batch => exact asGraph_scripted state (GraphTranslator.onBatch_scripted batch)
    | contextUpload bytes => exact .ofExcept (.error _)

theorem finish_scripted : Scripted assemble finish := by
  have htake : Scripted assemble takeImageId := by
    unfold takeImageId
    apply Scripted.bind view_scripted
    intro translator
    cases translator with
    | legacy parser =>
      exact asLegacy_scripted parser (reporting_scripted Legacy.Parser.finish_scripted)
    | graph state =>
      let forget : Translator × Option Transcript → Translator × Option Transcript :=
        fun rest => (.graph { state with imageId := none }, rest.2)
      exact .silent (fun _ => .ok state.imageId) forget fun _ _ _ => rfl
  unfold finish
  apply Scripted.bind htake
  intro image
  cases image with
  | some id => exact .pure id
  | none => exact .ofExcept (.error _)

end Translator

end BuildProgress
