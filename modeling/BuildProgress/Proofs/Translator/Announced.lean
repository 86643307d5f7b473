import BuildProgress.Proofs.Tracer.Numbering
import BuildProgress.Proofs.Transcript.Introductions
import BuildProgress.Proofs.Translator.Shown

/-!
# Steps are announced

The transcript keeps its own list of the steps that it has named. It is shown a batch after the
batch was translated, be it in part only because the handler stopped or a vertex is unknown, or not
at all because of a cycle. All the same, after each message the steps that it has named are those
that the graph's translator has numbered.
-/

namespace BuildProgress

set_option autoImplicit false

open Transcript Working

namespace Tracer

variable {handler : Handler} {batch : Batch} {s : Tracer × Delivery} {digest : String} {step : Nat}

theorem trace_keeps_step (h : s.1.step? digest = some step) :
    (trace handler batch s).2.1.step? digest = some step :=
  step?_mono (Stepwise.trace batch s).1.prefix_numbered h

/-- However far the translation of a batch comes, it numbers nothing but its vertices. -/
theorem trace_new_step (h : (trace handler batch s).2.1.step? digest = some step) :
    s.1.step? digest = some step ∨ ∃ v ∈ batch.vertices, v.digest = digest := by
  have hnumbered : (trace handler batch s).2.1.numbered = s.1.numbered ∨
      ∃ ordered new, orderVertices batch.vertices = .ok ordered ∧
        (trace handler batch s).2.1.numbered = s.1.numbered ++ new ∧
        new.Sublist (ordered.map (·.digest)) := trace_numbered batch s
  rcases hnumbered with hsame | ⟨ordered, new, horder, hnew, hsub⟩
  · left
    rw [step?, hsame] at h
    exact h
  · obtain ⟨hin, _⟩ := step?_eq_some_iff.mp h
    rw [hnew, List.mem_append] at hin
    cases hin with
    | inl hold =>
      left
      obtain ⟨n, hn⟩ := Option.ne_none_iff_exists'.mp (mt step?_eq_none_iff.mp (not_not_intro hold))
      have hkept : (trace handler batch s).2.1.step? digest = some n := trace_keeps_step hn
      rw [hn, ← hkept, h]
    | inr hfresh =>
      right
      obtain ⟨v, hv, hdigest⟩ := List.mem_map.mp (hsub.subset hfresh)
      exact ⟨v, (orderVertices_perm horder).mem_iff.mp hv, hdigest⟩

end Tracer

namespace GraphTranslator

/-- What a message gives the transcript to show. A marked message shows the batch that it carries, and
then its error, if it was not refused; any other message is shown as it is. -/
def exhibits (handler : Handler) (m : Message) (w : Working GraphTranslator) : List Exhibit :=
  if isMarked m then
    let (outcome, now) := onContent handler m w
    (batch? m).toList.map (Exhibit.batch now.translator.tracer.step?) ++
      if m.failure?.isSome && outcome.isOk then [.message m] else []
  else [.message m]

/-- The transcript has been shown these things since it was `t₀`, and has named the steps in use. -/
structure Accounted (t₀ : Transcript) (exhibits : List Exhibit) (seen : List Vertex)
    (w : Working GraphTranslator) : Prop where
  transcript : w.transcript = some (exhibitAll exhibits t₀)
  named : Named w.translator.tracer.step? seen (exhibitAll exhibits t₀) (piecesOf exhibits t₀)

variable {handler : Handler} {t₀ : Transcript} {shown : List Exhibit} {seen : List Vertex}
  {w u : Working GraphTranslator}

namespace Accounted

theorem congr (h : Accounted t₀ shown seen w) (htracer : u.translator.tracer = w.translator.tracer)
    (htranscript : u.transcript = w.transcript) : Accounted t₀ shown seen u :=
  ⟨htranscript.trans h.transcript, htracer ▸ h.named⟩

theorem showMessage (h : Accounted t₀ shown seen w) (m : Message) :
    Accounted t₀ (shown ++ [.message m]) seen (present (fun _ => Transcript.showMessage m) w).2 where
  transcript := by
    rw [exhibitAll_concat]
    exact congrArg (Option.map (Transcript.showMessage m)) h.transcript
  named := by
    rw [exhibitAll_concat, piecesOf_concat]
    exact h.named.showMessage m

theorem onBatch (h : Accounted t₀ shown seen w) (batch : Batch) :
    let now := (onBatch handler batch w).2
    Accounted t₀ (shown ++ [.batch now.translator.tracer.step? batch]) (seen ++ batch.vertices) now where
  transcript := by
    rw [exhibitAll_concat]
    exact congrArg (Option.map _) h.transcript
  named := by
    rw [exhibitAll_concat, piecesOf_concat]
    let s := (w.translator.tracer, w.delivery)
    exact h.named.showBatch (fun _ _ => Tracer.trace_keeps_step (s := s))
      (fun _ _ => Tracer.trace_new_step (s := s))

theorem onContent (h : Accounted t₀ shown seen w) (handler : Handler) {m : Message} (hmark : isMarked m = true) :
    let now := (onContent handler m w).2
    Accounted t₀ (shown ++ (batch? m).toList.map (.batch now.translator.tracer.step?))
      (seen ++ (batch? m).elim [] Batch.vertices) now := by
  unfold GraphTranslator.onContent batch?
  by_cases himage : m.id = Message.imageIdMark
  · have hother : m.id ≠ Message.traceMark := by
      rw [himage]
      decide
    rw [if_pos himage, if_neg hother, onImageId_eq, Option.elim_none, List.append_nil]
    simp only [Option.toList_none, List.map_nil, List.append_nil]
    cases readImageId m with
    | error e => exact h
    | ok id => exact h.congr rfl rfl
  · have htrace : m.id = Message.traceMark := by
      simpa [isMarked, himage] using hmark
    rw [if_neg himage, if_pos htrace, if_pos htrace, onTrace_eq]
    cases readBatch m with
    | error e =>
      simp only [Except.toOption, Option.elim_none, Option.toList_none, List.map_nil,
        List.append_nil]
      exact h
    | ok batch => exact h.onBatch batch

theorem showFailure (h : Accounted t₀ shown seen w) (m : Message) (message : String) :
    Accounted t₀ (shown ++ [.message m]) seen (showFailure handler m message w).2 := by
  have htracer : (GraphTranslator.showFailure handler m message w).2.translator.tracer =
      w.translator.tracer := congrArg (·.tracer) (showFailure_translator handler m message w)
  exact (h.showMessage m).congr htracer rfl

theorem onMarked (h : Accounted t₀ shown seen w) {m : Message} (hmark : isMarked m = true) :
    Accounted t₀ (shown ++ exhibits handler m w) (seen ++ (batch? m).elim [] Batch.vertices)
      (onMessage handler m w).2 := by
  have hcontent := h.onContent handler hmark
  unfold exhibits onMessage
  rw [if_pos hmark, ← List.append_assoc]
  rcases hrun : GraphTranslator.onContent handler m w with ⟨e | _, u⟩
  · rw [hrun] at hcontent
    rw [Action.bind_run_error hrun]
    simpa [Except.isOk, Except.toBool] using hcontent
  · rw [hrun] at hcontent
    rw [Action.bind_run_ok hrun]
    cases m.failure? with
    | none =>
      rw [Option.isSome_none, Bool.false_and, if_neg Bool.false_ne_true, List.append_nil]
      exact hcontent
    | some message =>
      dsimp only
      rw [if_pos hmark]
      exact hcontent.showFailure m message

theorem onUnmarked (h : Accounted t₀ shown seen w) {m : Message} (hmark : ¬ isMarked m = true) :
    Accounted t₀ (shown ++ [.message m]) seen (onMessage handler m w).2 := by
  unfold onMessage
  rw [onContent_of_unmarked handler hmark]
  cases m.failure? with
  | none => exact h.showMessage m
  | some message =>
    dsimp only
    rw [if_neg hmark]
    exact h.showFailure m message

theorem onMessage (h : Accounted t₀ shown seen w) (m : Message) :
    Accounted t₀ (shown ++ exhibits handler m w) (seen ++ (batch? m).elim [] Batch.vertices)
      (onMessage handler m w).2 := by
  by_cases hmark : isMarked m = true
  · exact h.onMarked hmark
  · have hnone : batch? m = none := by
      rw [isMarked, Bool.or_eq_true, beq_iff_eq, beq_iff_eq, not_or] at hmark
      exact if_neg hmark.2
    rw [exhibits, if_neg hmark, hnone, Option.elim_none, List.append_nil]
    exact h.onUnmarked hmark

end Accounted

end GraphTranslator

namespace Translator

/-- What handling a message gives the transcript to show. -/
def exhibits (handler : Handler) (message : BackendMessage) (w : Working Translator) : List Exhibit :=
  match w.translator, message with
  | .legacy _, .response m => [.message m]
  | .graph state, .response m => GraphTranslator.exhibits handler m { w with translator := state }
  | .graph _, .status batch => [.batch (handle handler message w).2.translator.step? batch]
  | _, _ => []

/-- What handling messages one after the other gives the transcript to show. -/
def exhibitsOf (handler : Handler) : List BackendMessage → Working Translator → List Exhibit
  | [], _ => []
  | message :: messages, w =>
    exhibits handler message w ++ exhibitsOf handler messages (handle handler message w).2

/-- The records of vertices in the batches that come with messages. -/
def recordsIn (messages : List BackendMessage) : List Vertex :=
  messages.flatMap fun message => message.batch?.elim [] Batch.vertices

open GraphTranslator (Accounted)

variable {t₀ : Transcript} {shown : List Exhibit} {seen : List Vertex}

theorem handle_accounted (handler : Handler) {state : GraphTranslator} {delivery : Delivery} {t : Option Transcript}
    (h : Accounted t₀ shown seen { translator := state, delivery, transcript := t })
    (message : BackendMessage) :
    let w : Working Translator := { translator := .graph state, delivery, transcript := t }
    ∃ now : Working GraphTranslator,
      (handle handler message w).2 = { now with translator := .graph now.translator } ∧
      Accounted t₀ (shown ++ exhibits handler message w)
        (seen ++ message.batch?.elim [] Batch.vertices) now := by
  cases message with
  | response m => exact ⟨_, rfl, h.onMessage m⟩
  | status batch => exact ⟨_, rfl, h.onBatch batch⟩
  | contextUpload bytes =>
    refine ⟨{ translator := state, delivery, transcript := t }, rfl, ?_⟩
    simpa [exhibits, BackendMessage.batch?] using h

theorem after_accounted (handler : Handler) (messages : List BackendMessage)
    {w : Working GraphTranslator} (h : Accounted t₀ shown seen w) :
    let w' : Working Translator := { w with translator := .graph w.translator }
    ∃ now : Working GraphTranslator,
      after handler messages w' = { now with translator := .graph now.translator } ∧
      Accounted t₀ (shown ++ exhibitsOf handler messages w') (seen ++ recordsIn messages) now := by
  induction messages generalizing w shown seen with
  | nil =>
    refine ⟨w, rfl, ?_⟩
    simpa [exhibitsOf, recordsIn] using h
  | cons message messages ih =>
    obtain ⟨next, hnext, haccounted⟩ := handle_accounted handler h message
    obtain ⟨now, hnow, hlast⟩ := ih haccounted
    rw [← hnext, List.append_assoc, List.append_assoc] at hlast
    rw [← hnext] at hnow
    exact ⟨now, hnow, hlast⟩

/-- In every run of the graph's translator, whatever its messages end with and the clock shows, the
transcript has named exactly the steps that have a number. Of a step with a number, the first line says the name that a
record of its vertex gives, and no later line names it; of no other number there is a line. -/
theorem steps_announced (handler : Handler) (messages : List BackendMessage) (delivery : Delivery)
    (color : Bool) (readings : List String) :
    let blank : Transcript := { color, readings }
    let fresh : Working Translator :=
      { translator := .start .buildKit, delivery, transcript := some blank }
    let now := after handler messages fresh
    let pieces := piecesOf (exhibitsOf handler messages fresh) blank
    ∃ t, now.transcript = some t ∧ t.written = pieces.map (Piece.text color) ∧
      (∀ step, step ∈ t.announced ↔ ∃ digest, now.translator.step? digest = some step) ∧
      (∀ step, step ∉ t.announced → linesOf step pieces = []) ∧
      ∀ digest step, now.translator.step? digest = some step →
        ∃ v ∈ recordsIn messages, v.digest = digest ∧ Introduced (linesOf step pieces) v.name := by
  intro blank fresh now pieces
  have hblank : Named (fun _ => none) [] blank [] :=
    ⟨fun step => ⟨nofun, nofun⟩, .nil⟩
  have hfresh : Accounted blank [] [] { translator := {}, delivery, transcript := some blank } :=
    ⟨rfl, hblank⟩
  obtain ⟨state, hnow, htranscript, hannounced, hintroduces⟩ :=
    after_accounted handler messages hfresh
  change now = _ at hnow
  have hgrows : Grows blank pieces (exhibitAll (exhibitsOf handler messages fresh) blank) :=
    .exhibitAll ⟨rfl, rfl⟩ _
  rw [hnow]
  refine ⟨_, htranscript, hgrows.written, hannounced, hintroduces.silent, ?_⟩
  intro digest step hstep
  obtain ⟨name, ⟨v, hv, hknown, rfl⟩, hlines⟩ :=
    hintroduces.named step ((hannounced step).mpr ⟨digest, hstep⟩)
  exact ⟨v, hv, Tracer.step?_inj hknown hstep, hlines⟩

end Translator

end BuildProgress
