import BuildProgress.Translator

/-!
# The transcript is not seen by the build

A translator writes its transcript as it goes: before it handles a message, after it, or only when
the message failed. An action is `Unseen` if it does without a transcript all that it does with one,
whatever the transcript holds and whether it can still be written. That is kept when actions are put
together, and it is true of the few that the translators are made of.
-/

namespace BuildProgress

set_option autoImplicit false

namespace Working

variable {σ α β : Type}

/-- The same moment of a build without a transcript. -/
def mute (w : Working σ) : Working σ :=
  { w with transcript := none }

def Unseen (act : Act σ α) : Prop :=
  ∀ w, act w.mute = ((act w).1, (act w).2.mute)

namespace Unseen

theorem of_same_mute {act : Act σ α} (h : Unseen act) {w w' : Working σ} (hsame : w.mute = w'.mute) :
    (act w).1 = (act w').1 ∧ (act w).2.mute = (act w').2.mute := by
  have heq := (h w).symm.trans ((congrArg act hsame).trans (h w'))
  exact Prod.mk.inj heq

theorem pure (a : α) : Unseen (Pure.pure a : Act σ α) :=
  fun _ => rfl

theorem fail (e : BuildError) : Unseen (Action.fail e : Act σ α) :=
  fun _ => rfl

theorem ofExcept (r : Except BuildError α) : Unseen (Action.ofExcept r : Act σ α) :=
  fun _ => rfl

theorem reporting (act : Reporting σ α) : Unseen (Working.reporting act) :=
  fun _ => rfl

theorem present (f : σ → Transcript → Transcript) : Unseen (Working.present f) :=
  fun _ => rfl

theorem update {f : Working σ → Working σ} (h : ∀ w, f w.mute = (f w).mute) :
    Unseen (Action.update f : Act σ Unit) :=
  fun w => congrArg (Prod.mk (Except.ok ())) (h w)

theorem view {f : Working σ → α} (h : ∀ w, f w.mute = f w) : Unseen (Action.view f : Act σ α) :=
  fun w => congrArg (fun a => (Except.ok a, w.mute)) (h w)

theorem bind {act : Act σ α} {next : α → Act σ β} (h : Unseen act) (hnext : ∀ a, Unseen (next a)) :
    Unseen (act >>= next) := by
  intro w
  have hact := h w
  rcases hrun : act w with ⟨e | a, t⟩
  · rw [hrun] at hact
    rw [Action.bind_run_error hact, Action.bind_run_error hrun]
  · rw [hrun] at hact
    rw [Action.bind_run_ok hact, Action.bind_run_ok hrun]
    exact hnext a t

theorem forEach {f : α → Act σ Unit} (h : ∀ a, Unseen (f a)) (xs : List α) :
    Unseen (Action.forEach f xs) := by
  induction xs with
  | nil => exact pure ()
  | cons x xs ih => exact (h x).bind fun _ => ih

end Unseen

end Working

open Working

namespace GraphTranslator

theorem onBatch_unseen (handler : Handler) (batch : Batch) : Unseen (onBatch handler batch) :=
  fun _ => rfl

theorem onImageId_unseen (m : Message) : Unseen (onImageId m) := by
  unfold onImageId
  cases m.payload with
  | none => exact .fail _
  | some payload =>
    dsimp only
    cases Message.imageId? payload with
    | none => exact .fail _
    | some id => exact .update fun _ => rfl

theorem onTrace_unseen (handler : Handler) (m : Message) : Unseen (onTrace handler m) := by
  unfold onTrace
  cases m.payload with
  | none => exact .fail _
  | some payload => exact .bind (.ofExcept _) fun batch => onBatch_unseen handler batch

theorem onContent_unseen (handler : Handler) (m : Message) : Unseen (onContent handler m) := by
  unfold onContent
  split
  · exact onImageId_unseen m
  · split
    · exact onTrace_unseen handler m
    · exact .present _

theorem onMessage_unseen (handler : Handler) (m : Message) : Unseen (onMessage handler m) := by
  unfold onMessage
  apply Unseen.bind (onContent_unseen handler m)
  intro _
  cases m.failure? with
  | none => exact .pure ()
  | some message =>
    dsimp only
    split
    · exact .bind (.present _) fun _ => .reporting _
    · exact .reporting _

end GraphTranslator

namespace Translator

variable {α : Type}

theorem wrapped_unseen {σ : Type} (wrap : σ → Translator) (state : σ) {act : Act σ α}
    (h : Unseen act) : Unseen fun w : Working Translator =>
      let (outcome, after) := act { w with translator := state }
      (outcome, { after with translator := wrap after.translator }) := by
  intro w
  let put : Working σ → Working Translator := fun after =>
    { after with translator := wrap after.translator }
  exact congrArg (fun r => (r.1, put r.2)) (h { w with translator := state })

theorem asLegacy_unseen (parser : Legacy.Parser) {act : Act Legacy.Parser α} (h : Unseen act) :
    Unseen (asLegacy parser act) :=
  wrapped_unseen .legacy parser h

theorem asGraph_unseen (state : GraphTranslator) {act : Act GraphTranslator α} (h : Unseen act) :
    Unseen (asGraph state act) :=
  wrapped_unseen .graph state h

theorem handle_unseen (handler : Handler) (message : BackendMessage) :
    Unseen (handle handler message) := by
  unfold handle
  apply Unseen.bind (.view fun _ => rfl)
  intro translator
  cases translator with
  | legacy parser =>
    cases message with
    | response m => exact asLegacy_unseen parser (.bind (.present _) fun _ => .reporting _)
    | status batch => exact .fail _
    | contextUpload bytes => exact asLegacy_unseen parser (.reporting _)
  | graph state =>
    cases message with
    | response m => exact asGraph_unseen state (GraphTranslator.onMessage_unseen handler m)
    | status batch => exact asGraph_unseen state (GraphTranslator.onBatch_unseen handler batch)
    | contextUpload bytes => exact .fail _

theorem finish_unseen (handler : Handler) : Unseen (finish handler) := by
  have htake : Unseen (takeImageId handler) := by
    unfold takeImageId
    apply Unseen.bind (.view fun _ => rfl)
    intro translator
    cases translator with
    | legacy parser => exact asLegacy_unseen parser (.reporting _)
    | graph state => exact .bind (.update fun _ => rfl) fun _ => .pure _
  unfold finish
  apply Unseen.bind htake
  intro image
  cases image with
  | some id => exact .pure id
  | none => exact .fail _

theorem unlessCancelled_unseen {act : Act Translator α} (h : Unseen act) :
    Unseen (unlessCancelled act) := by
  unfold unlessCancelled
  apply Unseen.bind (.view fun _ => rfl)
  intro cancelled
  split
  · exact .fail _
  · exact h

theorem pump_unseen (handler : Handler) (messages : List BackendMessage) :
    Unseen (pump handler messages) := by
  unfold pump relay
  apply Unseen.bind
  · exact .forEach (fun message => unlessCancelled_unseen (handle_unseen handler message)) messages
  · exact fun _ => unlessCancelled_unseen (finish_unseen handler)

/-- What a translator may be asked to do. -/
inductive Call where
  | handle (message : BackendMessage)
  | finish

/-- Does what is asked, and answers with the image that was named if the build is to end. -/
def answer (handler : Handler) : Call → Act Translator (Option String)
  | .handle message => do
    handle handler message
    pure none
  | .finish => do
    let id ← finish handler
    pure (some id)

/-- What can be seen of a translator that is called again and again, whatever it answers: every
answer, and the translator and the guard after it. Something may happen to the transcript before each
call: time passes, or the writer breaks. -/
def record (handler : Handler) : List (Call × (Transcript → Transcript)) → Working Translator →
    List (Except BuildError (Option String) × Translator × Delivery)
  | [], _ => []
  | (call, meanwhile) :: calls, w =>
    let (outcome, after) :=
      answer handler call { w with transcript := w.transcript.map meanwhile }
    (outcome, after.translator, after.delivery) :: record handler calls after

theorem answer_unseen (handler : Handler) (call : Call) : Unseen (answer handler call) := by
  cases call with
  | handle message => exact .bind (handle_unseen handler message) fun _ => .pure _
  | finish => exact .bind (finish_unseen handler) fun _ => .pure _

theorem record_of_same_mute (handler : Handler) (calls : List (Call × (Transcript → Transcript)))
    {w w' : Working Translator} (hsame : w.mute = w'.mute) :
    record handler calls w = record handler calls w' := by
  induction calls generalizing w w' with
  | nil => rfl
  | cons item calls ih =>
    obtain ⟨call, meanwhile⟩ := item
    let shown : Working Translator := { w with transcript := w.transcript.map meanwhile }
    let shown' : Working Translator := { w' with transcript := w'.transcript.map meanwhile }
    have hshown : shown.mute = shown'.mute := hsame
    obtain ⟨houtcome, hafter⟩ := (answer_unseen handler call).of_same_mute hshown
    have htranslator := congrArg Working.translator hafter
    have hdelivery := congrArg Working.delivery hafter
    change (_, _, _) :: _ = (_, _, _) :: _
    rw [List.cons.injEq, Prod.mk.injEq, Prod.mk.injEq]
    exact ⟨⟨houtcome, htranslator, hdelivery⟩, ih hafter⟩

/-- With any transcript a translator gives the same answers, tells the handler the same and is in the
same state after every call as without one, and a build comes to the same end. It does not matter
whether the transcript is coloured, what was written, when the writer fails or what the handler
answers. -/
theorem transcript_unseen (builder : Builder) (cancelled : Bool) (transcript : Transcript)
    (handler : Handler) :
    let start : Working Translator := { translator := .start builder, delivery := { cancelled } }
    let shown : Working Translator := { start with transcript := some transcript }
    (∀ calls, record handler calls shown = record handler calls start) ∧
    ∀ messages, (pump handler messages shown).1 = (pump handler messages start).1 ∧
      (pump handler messages shown).2.delivery = (pump handler messages start).2.delivery ∧
      (pump handler messages shown).2.translator = (pump handler messages start).2.translator := by
  intro start shown
  have hsame : shown.mute = start.mute := rfl
  refine ⟨fun calls => record_of_same_mute handler calls hsame, fun messages => ?_⟩
  obtain ⟨houtcome, hafter⟩ := (pump_unseen handler messages).of_same_mute hsame
  have hdelivery := congrArg Working.delivery hafter
  have htranslator := congrArg Working.translator hafter
  exact ⟨houtcome, hdelivery, htranslator⟩

end Translator

end BuildProgress
