import BuildProgress.Proofs.Translator.Verdict

/-!
# What can not be read leaves no trace

A translator turns a message away if what it carries can not be read, or if only the other backend
sends such messages. That depends on the message alone, and comes before all else that is done with
it: no event is delivered, nothing is shown, and the translator is as it was. So messages are handled
as if those that are turned away had not been sent.
-/

namespace BuildProgress

set_option autoImplicit false

open Working

/-- The message was turned away: it can not be read, or another translator takes such messages. -/
def BuildError.isRejection : BuildError → Bool
  | .backendProtocol _ => true
  | .contractViolation .statusToLegacy => true
  | .contractViolation .uploadToGraph => true
  | _ => false

section Admitting

variable {σ τ α β : Type} {handler : Handler}

/-- Whatever the action fails with, it turns nothing away. -/
def Admits (act : Action BuildError σ α) : Prop :=
  ∀ s, Action.Ends act s (fun _ _ => True) (fun e _ => e.isRejection = false)

namespace Admits

theorem pure (a : α) : Admits (Pure.pure a : Action BuildError σ α) :=
  fun _ => .of_ok rfl trivial

theorem fail {e : BuildError} (h : e.isRejection = false) :
    Admits (Action.fail e : Action BuildError σ α) :=
  fun _ => .of_error rfl h

theorem view (f : σ → α) : Admits (Action.view f : Action BuildError σ α) :=
  fun _ => .of_ok rfl trivial

theorem update (f : σ → σ) : Admits (Action.update f : Action BuildError σ Unit) :=
  fun _ => .of_ok rfl trivial

theorem ofExcept {r : Except BuildError α} (h : ∀ e, r = .error e → e.isRejection = false) :
    Admits (Action.ofExcept r : Action BuildError σ α) := by
  intro s
  cases r with
  | ok a => exact .of_ok rfl trivial
  | error e => exact .of_error rfl (h e rfl)

theorem bind {act : Action BuildError σ α} {next : α → Action BuildError σ β} (h : Admits act)
    (hnext : ∀ a, Admits (next a)) : Admits (act >>= next) := by
  intro s
  apply Action.Ends.bind
  exact (h s).mono_good fun a t _ => hnext a t

theorem whenever {c : Prop} [Decidable c] {act : Action BuildError σ Unit}
    {next : Unit → Action BuildError σ β} (h : Admits act) (hnext : Admits (next ())) :
    Admits (if c then act >>= next else next ()) := by
  split
  · exact h.bind fun _ => hnext
  · exact hnext

theorem within {part : τ → σ} {replace : τ → σ → τ} {act : Action BuildError σ α}
    (h : Admits act) : Admits (Action.within part replace act) :=
  fun t => .within (h (part t))

theorem forEach {f : α → Action BuildError σ Unit} (h : ∀ a, Admits (f a)) (xs : List α) :
    Admits (Action.forEach f xs) := by
  induction xs with
  | nil => exact pure ()
  | cons x xs ih => exact (h x).bind fun _ => ih

/-- The guard refuses events, but no message. -/
theorem report (event : Event) : Admits (report handler event : Reporting σ Unit) := by
  apply within
  intro d
  by_cases hdelivers : d.Delivers event
  · rcases Delivery.emit_cases_of_delivers handler hdelivers with ⟨herror, _⟩ | ⟨hok, _⟩
    · exact .of_error (Prod.ext herror rfl) rfl
    · exact .of_ok (Prod.ext hok rfl) trivial
  · unfold Action.Ends
    rw [Delivery.emit_eq_withheld hdelivers]
    unfold Delivery.withheld
    cases d.phase with
    | receiving => cases event <;> trivial
    | aborted => rfl
    | terminated => trivial

theorem reportFailure (message : String) :
    Admits (reportFailure handler message : Reporting σ Unit) :=
  (report _).bind fun _ => fail rfl

end Admits

end Admitting

namespace Tracer

variable {handler : Handler}

theorem findStep_admits (digest : String) : Admits (findStep digest) := by
  apply Admits.bind (.view _)
  intro t
  apply Admits.ofExcept
  intro e herror
  unfold stepOf at herror
  split at herror
  · cases herror
  · cases herror
    rfl

theorem announce_admits (v : Vertex) : Admits (announce handler v) := by
  apply Admits.bind (.view _)
  intro t
  split
  · split
    · exact .bind (.update _) fun _ => .report _
    · exact .pure ()
  · split
    · exact .bind (.update _) fun _ => .report _
    · exact .pure ()

theorem traceStatus_admits (s : VertexStatus) : Admits (traceStatus handler s) := by
  apply Admits.bind (findStep_admits s.vertex)
  intro step
  split
  · exact .report _
  · exact .pure ()

theorem traceLog_admits (l : VertexLog) : Admits (traceLog handler l) :=
  .bind (findStep_admits l.vertex) fun _ => .report _

theorem conclude_admits (v : Vertex) : Admits (conclude handler v) := by
  unfold conclude
  split
  · exact .reportFailure _
  · apply Admits.bind (.view _)
    intro t
    split
    · apply Admits.bind (findStep_admits v.digest)
      exact fun _ => .bind (.update _) fun _ => .report _
    · exact .pure ()

theorem trace_admits (batch : Batch) : Admits (trace handler batch) := by
  unfold trace
  apply Admits.bind
  · apply Admits.ofExcept
    intro e herror
    obtain ⟨digests, rfl⟩ := orderVertices_error herror
    rfl
  · intro vertices
    apply Admits.bind (.forEach announce_admits vertices)
    intro _
    apply Admits.bind (.forEach traceStatus_admits batch.statuses)
    intro _
    apply Admits.bind (.forEach traceLog_admits batch.logs)
    exact fun _ => .forEach conclude_admits vertices

end Tracer

namespace Legacy.Parser

variable {handler : Handler}

theorem closeStep_admits : Admits (closeStep handler) := by
  apply Admits.bind (.view _)
  intro step
  split
  · exact .report _
  · exact .pure ()

theorem openStep_admits (line : StepLine) : Admits (openStep handler line) := by
  unfold openStep
  split
  · exact .fail rfl
  · apply Admits.bind closeStep_admits
    exact fun _ => .bind (.update _) fun _ => .report _

theorem onText_admits (text : String) : Admits (onText handler text) := by
  unfold onText
  split
  · exact openStep_admits _
  · apply Admits.bind (.view _)
    intro p
    split
    · exact .update _
    · exact .bind (.update _) fun _ => .report _

theorem onProgress_admits (m : Message) : Admits (onProgress handler m) := by
  apply Admits.bind (.view _)
  intro p
  split
  · exact .report _
  · exact .report _

theorem onMessage_admits (m : Message) : Admits (onMessage handler m) := by
  unfold onMessage
  dsimp only
  apply Admits.whenever (onText_admits m.stream)
  apply Admits.whenever (onProgress_admits m)
  cases m.failure? with
  | some message => exact .reportFailure message
  | none =>
    dsimp only
    split
    · exact .update _
    · exact .pure ()

theorem onShownMessage_admits (m : Message) : Admits (onShownMessage handler m) :=
  .bind (.update _) fun _ => .within (onMessage_admits m)

theorem onUpload_admits (bytes : Int) : Admits (onUpload handler bytes) :=
  .bind (.view _) fun _ => .report _

end Legacy.Parser

namespace GraphTranslator

/-- Why what a message carries can not be read, if so. -/
def unreadable? (m : Message) : Option BuildError :=
  if m.id = Message.imageIdMark then
    match readImageId m with
    | .ok _ => none
    | .error e => some e
  else if m.id = Message.traceMark then
    match readBatch m with
    | .ok _ => none
    | .error e => some e
  else none

variable {handler : Handler} {m : Message} {e : BuildError}

theorem readImageId_isRejection (h : readImageId m = .error e) : e.isRejection = true := by
  unfold readImageId at h
  split at h
  · cases h
    rfl
  · split at h
    · cases h
      rfl
    · cases h

theorem ofPayload_isRejection {payload : Json} (h : Batch.ofPayload payload = .error e) :
    e.isRejection = true := by
  unfold Batch.ofPayload Batch.ofBytes at h
  split at h
  · split at h
    · split at h
      · cases h
      · cases h
        rfl
    · cases h
      rfl
  · cases h
    rfl

theorem readBatch_isRejection (h : readBatch m = .error e) : e.isRejection = true := by
  unfold readBatch at h
  split at h
  · cases h
    rfl
  · exact ofPayload_isRejection h

theorem unreadable?_cases (h : unreadable? m = some e) :
    (m.id = Message.imageIdMark ∧ readImageId m = .error e) ∨
      (m.id ≠ Message.imageIdMark ∧ m.id = Message.traceMark ∧ readBatch m = .error e) := by
  unfold unreadable? at h
  split at h
  · split at h
    · cases h
    · cases h
      exact .inl ⟨‹_›, ‹_›⟩
  · split at h
    · split at h
      · cases h
      · cases h
        exact .inr ⟨‹_›, ‹_›, ‹_›⟩
    · cases h

theorem unreadable?_isRejection (h : unreadable? m = some e) : e.isRejection = true := by
  rcases unreadable?_cases h with ⟨-, herror⟩ | ⟨-, -, herror⟩
  · exact readImageId_isRejection herror
  · exact readBatch_isRejection herror

theorem tracing_admits {α : Type} {act : Reporting Tracer α} (h : Admits act) :
    Admits (tracing act) := by
  unfold tracing reporting
  exact .within (.within h)

theorem onBatch_admits (batch : Batch) : Admits (onBatch handler batch) := by
  have hshown : onBatch handler batch = Action.within id
      (fun _ u => (present (fun g => Transcript.showBatch g.tracer.step? batch) u).2)
      (tracing (Tracer.trace handler batch)) := rfl
  rw [hshown]
  exact .within (tracing_admits (Tracer.trace_admits batch))

/-- What can not be read is not looked at any further. -/
theorem onContent_of_unreadable (h : unreadable? m = some e) (w : Working GraphTranslator) :
    onContent handler m w = (.error e, w) := by
  unfold onContent
  rcases unreadable?_cases h with ⟨hmark, herror⟩ | ⟨hother, hmark, herror⟩
  · rw [if_pos hmark, onImageId_eq, herror]
    rfl
  · rw [if_neg hother, if_pos hmark, onTrace_eq, herror]
    rfl

theorem onContent_admits (h : unreadable? m = none) : Admits (onContent handler m) := by
  unfold unreadable? at h
  unfold onContent
  split
  · rw [if_pos ‹_›] at h
    rw [onImageId_eq]
    cases hread : readImageId m with
    | ok id => exact .bind (.ofExcept nofun) fun _ => .update _
    | error fault =>
      rw [hread] at h
      cases h
  · rw [if_neg ‹_›] at h
    split
    · rw [if_pos ‹_›] at h
      rw [onTrace_eq]
      cases hread : readBatch m with
      | ok batch => exact .bind (.ofExcept nofun) onBatch_admits
      | error fault =>
        rw [hread] at h
        cases h
    · exact .update _

theorem onMessage_of_unreadable (h : unreadable? m = some e) (w : Working GraphTranslator) :
    onMessage handler m w = (.error e, w) :=
  Action.bind_run_error (onContent_of_unreadable h w)

theorem onMessage_admits (h : unreadable? m = none) : Admits (onMessage handler m) := by
  apply Admits.bind (onContent_admits h)
  intro _
  split
  · exact .pure ()
  · have hfails : ∀ message, Admits (tracing (reportFailure handler message)) :=
      fun message => tracing_admits (.reportFailure message)
    split
    · exact .bind (.update _) fun _ => hfails _
    · exact hfails _

end GraphTranslator

namespace Translator

/-- Why the translator of this builder turns a message away, if it does. -/
def rejection? : Builder → BackendMessage → Option BuildError
  | .legacy, .status _ => some (.contractViolation .statusToLegacy)
  | .buildKit, .contextUpload _ => some (.contractViolation .uploadToGraph)
  | .buildKit, .response m => GraphTranslator.unreadable? m
  | _, _ => none

variable {handler : Handler} {message : BackendMessage} {e : BuildError}

theorem rejection?_isRejection {builder : Builder} (h : rejection? builder message = some e) :
    e.isRejection = true := by
  unfold rejection? at h
  split at h
  · cases h
    rfl
  · cases h
    rfl
  · exact GraphTranslator.unreadable?_isRejection h
  · cases h

/-- A message that is turned away leaves everything as it was. -/
theorem handle_of_rejection {w : Working Translator}
    (h : rejection? w.translator.builder message = some e) :
    handle handler message w = (.error e, w) := by
  obtain ⟨translator, delivery, transcript⟩ := w
  cases translator with
  | legacy parser =>
    cases message with
    | response m => cases h
    | status batch =>
      cases h
      rfl
    | contextUpload bytes => cases h
  | graph state =>
    cases message with
    | response m =>
      have hrun : GraphTranslator.onMessage handler m ⟨state, delivery, transcript⟩ =
          (.error e, ⟨state, delivery, transcript⟩) :=
        GraphTranslator.onMessage_of_unreadable h _
      unfold handle
      rw [Action.bind_run]
      simp only [Action.view, asGraph, hrun]
    | status batch => cases h
    | contextUpload bytes =>
      cases h
      rfl

theorem handle_admits {w : Working Translator}
    (h : rejection? w.translator.builder message = none) :
    Action.Ends (handle handler message) w (fun _ _ => True) (fun e _ => e.isRejection = false) := by
  obtain ⟨translator, delivery, transcript⟩ := w
  apply Action.Ends.after_view
  cases translator with
  | legacy parser =>
    cases message with
    | response m => exact asLegacy_ends (Legacy.Parser.onShownMessage_admits m _)
    | status batch => cases h
    | contextUpload bytes =>
      exact asLegacy_ends (Admits.within (Legacy.Parser.onUpload_admits bytes) _)
  | graph state =>
    cases message with
    | response m => exact asGraph_ends (GraphTranslator.onMessage_admits h _)
    | status batch => exact asGraph_ends (GraphTranslator.onBatch_admits batch _)
    | contextUpload bytes => cases h

theorem handle_builder (handler : Handler) (message : BackendMessage) (w : Working Translator) :
    (handle handler message w).2.translator.builder = w.translator.builder := by
  obtain ⟨translator, delivery, transcript⟩ := w
  cases translator <;> cases message <;> rfl

theorem rejection?_of_error {w : Working Translator} (h : (handle handler message w).1 = .error e)
    (hrejection : e.isRejection = true) :
    rejection? w.translator.builder message = some e := by
  cases hsome : rejection? w.translator.builder message with
  | none =>
    have hrun : handle handler message w = (.error e, (handle handler message w).2) :=
      Prod.ext h rfl
    have hadmits := (handle_admits hsome).bad_of_run hrun
    rw [hrejection] at hadmits
    cases hadmits
  | some e' =>
    rw [handle_of_rejection hsome] at h
    cases h
    rfl

/-- Handles one message after the other, whatever comes of them. -/
def handleEach (handler : Handler) :
    List BackendMessage → Working Translator → List (Except BuildError Unit) × Working Translator
  | [], w => ([], w)
  | message :: messages, w =>
    let (outcome, after) := handle handler message w
    let (outcomes, last) := handleEach handler messages after
    (outcome :: outcomes, last)

def isRejected : Except BuildError Unit → Bool
  | .ok _ => false
  | .error e => e.isRejection

theorem isRejected_handle (handler : Handler) (message : BackendMessage) (w : Working Translator) :
    isRejected (handle handler message w).1 =
      (rejection? w.translator.builder message).isSome := by
  cases hsome : rejection? w.translator.builder message with
  | none =>
    rcases hrun : handle handler message w with ⟨e | _, after⟩
    · exact (handle_admits hsome).bad_of_run hrun
    · rfl
  | some e =>
    rw [handle_of_rejection hsome]
    exact rejection?_isRejection hsome

/-- Those that are turned away could as well have been left out. -/
theorem handleEach_filter (handler : Handler) (messages : List BackendMessage)
    (w : Working Translator) :
    handleEach handler
        (messages.filter fun message => (rejection? w.translator.builder message).isNone) w =
      ((handleEach handler messages w).1.filter (!isRejected ·),
        (handleEach handler messages w).2) := by
  induction messages generalizing w with
  | nil => rfl
  | cons message messages ih =>
    have hbuilder := handle_builder handler message w
    have hrejected := isRejected_handle handler message w
    have hrest := ih (handle handler message w).2
    rw [hbuilder] at hrest
    cases hsome : rejection? w.translator.builder message with
    | none =>
      rw [hsome] at hrejected
      have hkept : (!isRejected (handle handler message w).1) = true := by
        rw [hrejected]
        rfl
      simp only [List.filter_cons, hsome, Option.isNone_none, if_true, handleEach, hrest, hkept]
    | some e =>
      rw [handle_of_rejection hsome] at hrest
      have hleft : (!isRejected (.error e)) = false := by
        rw [isRejected, rejection?_isRejection hsome]
        rfl
      simp only [List.filter_cons, hsome, Option.isNone_some, Bool.false_eq_true, if_false,
        handleEach, handle_of_rejection hsome, hleft, hrest]

/-- A message that is turned away changes nothing: neither the steps nor the image nor the parser, no
event is delivered and nothing is shown. That a message is turned away can be told from the message,
and messages are handled as if those that are turned away had been left out. -/
theorem rejection_atomic (handler : Handler) (w : Working Translator) :
    (∀ message e, (handle handler message w).1 = .error e → e.isRejection = true →
      (handle handler message w).2 = w ∧ rejection? w.translator.builder message = some e) ∧
    (∀ message e, rejection? w.translator.builder message = some e →
      e.isRejection = true ∧ handle handler message w = (.error e, w)) ∧
    ∀ messages, handleEach handler
        (messages.filter fun message => (rejection? w.translator.builder message).isNone) w =
      ((handleEach handler messages w).1.filter (!isRejected ·),
        (handleEach handler messages w).2) := by
  refine ⟨fun message e herror hrejection => ?_, fun message e hsome => ?_, fun messages => ?_⟩
  · have hsome := rejection?_of_error herror hrejection
    exact ⟨congrArg Prod.snd (handle_of_rejection hsome), hsome⟩
  · exact ⟨rejection?_isRejection hsome, handle_of_rejection hsome⟩
  · exact handleEach_filter handler messages w

/-- A build in which a step was started and shown. -/
def begun : Working Translator :=
  let batch : Batch := { vertices := [{ digest := "a", name := "FROM a", started := some ⟨1, 0⟩ }] }
  (handle .quiet (.status batch)
    { translator := .start .buildKit, transcript := some { color := true } }).2

/-- A trace whose only record ends too early, in a message that also reports an error. -/
theorem rejection_atomic_truncated :
    let m : Message :=
      { id := Message.traceMark, errorText := "boom", payload := some (.string (some "CgU=")) }
    begun.delivery.history = [.stepStarting 1 "FROM a"] ∧
      (handle .quiet (.response m) begun).1 = .error (.backendProtocol .traceMalformed) ∧
      (handle .quiet (.response m) begun).2 = begun := by
  intro m
  have hbegun : begun.delivery.history = [.stepStarting 1 "FROM a"] := by decide +kernel
  have herror : (handle .quiet (.response m) begun).1 =
      .error (.backendProtocol .traceMalformed) := by decide +kernel
  obtain ⟨hatomic, _⟩ := rejection_atomic .quiet begun
  exact ⟨hbegun, herror, (hatomic (.response m) _ herror rfl).1⟩

end Translator

end BuildProgress
