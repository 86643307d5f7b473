import BuildProgress.Proofs.Reasons
import BuildProgress.Proofs.Transcript
import BuildProgress.Proofs.Translator.Abort
import BuildProgress.Proofs.Translator.Verdict

/-!
# Failures that are told and shown

The handler is told of a failure by one part of the program, and the transcript shows it by another.
The error that a message reports is always shown. The error of a record in a batch is shown as the
end of its step, so that it is not if the record has no step, or if its step is shown as cached.
-/

namespace BuildProgress

set_option autoImplicit false

open Transcript Working

/-- Of the records with this error none is shown as failed: each that has a step is shown as
cached. -/
structure Batch.Hides (batch : Batch) (stepOf : String → Option Nat) (records : List String)
    (message : String) : Prop where
  fails : ∃ v ∈ batch.vertices, v.error = message
  cached : ∀ v ∈ batch.vertices, v.error = message → ∀ step, stepOf v.digest = some step →
    v.cached = true ∧ stepRecord step "CACHED" ∈ records

theorem Batch.Hides.mono {batch : Batch} {stepOf : String → Option Nat} {records more : List String}
    {message : String} (h : batch.Hides stepOf records message) (hsub : records ⊆ more) :
    batch.Hides stepOf more message where
  fails := h.fails
  cached := fun v hv herror step hstep => (h.cached v hv herror step hstep).imp_right (@hsub _)

namespace Working

variable {σ τ : Type} {t : Transcript} {told : List Event} {P : List String → String → Prop}

/-- Since the moment of this transcript and these events, every failure that was told was shown, or
else it was hidden in the sense of `P`. -/
def ShownSince (t : Transcript) (told : List Event) (P : List String → String → Prop)
    (u : Working σ) : Prop :=
  ∃ t' records more, u.transcript = some t' ∧ Adds t records t' ∧ u.delivery.history = told ++ more ∧
    ∀ message, .buildFailed message ∈ more →
      (∃ record ∈ records, IsError message record) ∨ P records message

namespace ShownSince

variable {u : Working σ} {v : Working τ}

theorem unchanged (h : t.Plain) (htranscript : u.transcript = some t) :
    ShownSince t u.delivery.history P u :=
  ⟨t, [], [], htranscript, .refl h, (List.append_nil _).symm, nofun⟩

theorem trans (hmono : ∀ records more message, P records message → records ⊆ more → P more message)
    (h : ShownSince t told P u) (hnext : ∀ t', u.transcript = some t' → t'.Plain →
      ShownSince t' u.delivery.history P v) : ShownSince t told P v := by
  obtain ⟨t', records, more, htranscript, hadds, hhistory, hshown⟩ := h
  obtain ⟨t'', records', more', htranscript', hadds', hhistory', hshown'⟩ :=
    hnext t' htranscript hadds.plain
  refine ⟨t'', records ++ records', more ++ more', htranscript', hadds.trans hadds', ?_, ?_⟩
  · rw [hhistory', hhistory, List.append_assoc]
  · intro message hin
    rcases List.mem_append.mp hin with hin | hin
    · rcases hshown message hin with ⟨record, hrecord, herror⟩ | hhidden
      · exact Or.inl ⟨record, List.mem_append_left _ hrecord, herror⟩
      · exact Or.inr (hmono _ _ _ hhidden (List.subset_append_left _ _))
    · rcases hshown' message hin with ⟨record, hrecord, herror⟩ | hhidden
      · exact Or.inl ⟨record, List.mem_append_right _ hrecord, herror⟩
      · exact Or.inr (hmono _ _ _ hhidden (List.subset_append_right _ _))

theorem mono {Q : List String → String → Prop} (h : ShownSince t told P u)
    (himp : ∀ records message, P records message → Q records message) : ShownSince t told Q u := by
  obtain ⟨t', records, more, htranscript, hadds, hhistory, hshown⟩ := h
  exact ⟨t', records, more, htranscript, hadds, hhistory,
    fun message hin => (hshown message hin).imp_right (himp records message)⟩

theorem of_reporting {α : Type} {act : Reporting σ α} (hact : FailsFor (fun _ => False) act)
    {w : Working σ} (h : t.Plain) (htranscript : w.transcript = some t) :
    ShownSince t w.delivery.history P (reporting act w).2 := by
  obtain ⟨more, hmore, hnone⟩ := hact (w.translator, w.delivery)
  exact ⟨t, [], more, htranscript, .refl h, hmore, fun message hin => (hnone message hin).elim⟩

/-- What fails only with the error of a message that is shown. -/
theorem of_message {m : Message} {more : List Event} (h : t.Plain)
    (htranscript : u.transcript = some (t.showMessage m)) (hhistory : u.delivery.history = told ++ more)
    (hreason : ∀ message, .buildFailed message ∈ more → m.failure? = some message) :
    ShownSince t told P u := by
  refine ⟨_, _, more, htranscript, .showMessage h m, hhistory, fun message hin => Or.inl ?_⟩
  refine ⟨errorLine message ++ "\n", ?_, Or.inl rfl⟩
  rw [messageRecord?_of_failure (hreason message hin)]
  exact List.mem_cons_self

end ShownSince

end Working

namespace Legacy.Parser

theorem onShownMessage_shown (handler : Handler) (m : Message) {w : Working Parser} {t : Transcript}
    {P : List String → String → Prop} (h : t.Plain) (htranscript : w.transcript = some t) :
    ShownSince t w.delivery.history P (onShownMessage handler m w).2 := by
  obtain ⟨parser, delivery, _⟩ := w
  cases htranscript
  obtain ⟨more, hmore, hreason⟩ := onMessage_failsFor handler m (parser, delivery)
  exact .of_message h rfl hmore hreason

end Legacy.Parser

theorem reportFailure_state {σ : Type} {handler : Handler} (message : String) (s : σ × Delivery) :
    (reportFailure handler message s).2.1 = s.1 := by
  have hreport : (report handler (.buildFailed message) s).2.1 = s.1 := rfl
  rcases hrun : report handler (.buildFailed message) s with ⟨e | _, u⟩
  · rw [hrun] at hreport
    rw [reportFailure, Action.bind_run_error hrun, hreport]
  · rw [hrun] at hreport
    rw [reportFailure, Action.bind_run_ok hrun]
    exact hreport

namespace GraphTranslator

variable {handler : Handler} {w : Working GraphTranslator} {t : Transcript}

/-- How a message hides a failure. -/
def Hides (m : Message) (state : GraphTranslator) (records : List String) (message : String) : Prop :=
  ∃ batch, batch? m = some batch ∧ batch.Hides state.tracer.step? records message

theorem Hides.mono {m : Message} {state : GraphTranslator} {records more : List String}
    {message : String} (h : Hides m state records message) (hsub : records ⊆ more) :
    Hides m state more message :=
  h.imp fun _ hbatch => hbatch.imp_right (·.mono hsub)

theorem onBatch_shown (handler : Handler) (batch : Batch) (h : t.Plain)
    (htranscript : w.transcript = some t) :
    let now := (onBatch handler batch w).2
    ShownSince t w.delivery.history (batch.Hides now.translator.tracer.step?) now := by
  obtain ⟨state, delivery, _⟩ := w
  cases htranscript
  intro now
  let after := Tracer.trace handler batch (state.tracer, delivery)
  obtain ⟨more, hmore, hreason⟩ := Tracer.trace_failsFor handler batch (state.tracer, delivery)
  obtain ⟨records, hadds, hshown⟩ := showBatch_adds after.2.1.step? h batch
  refine ⟨_, records, more, rfl, hadds, hmore, fun message hin => ?_⟩
  obtain ⟨hne, hfails⟩ := hreason message hin
  by_cases hfound : ∃ v ∈ batch.vertices, v.error = message ∧ ∃ step,
      after.2.1.step? v.digest = some step ∧ stepRecord step (errorLine message) ∈ records
  · obtain ⟨_, _, _, step, _, hrecord⟩ := hfound
    exact Or.inl ⟨_, hrecord, Or.inr ⟨step, rfl⟩⟩
  · right
    refine ⟨hfails, ?_⟩
    rintro v hv rfl step hstep
    apply (hshown v hv step hstep hne).resolve_left
    exact fun hrecord => hfound ⟨v, hv, rfl, step, hstep, hrecord⟩

theorem onTrace_shown (handler : Handler) {m : Message} (hmark : m.id = Message.traceMark)
    (h : t.Plain) (htranscript : w.transcript = some t) :
    let now := (onTrace handler m w).2
    ShownSince t w.delivery.history (Hides m now.translator) now := by
  rw [onTrace_eq]
  cases hread : readBatch m with
  | error e => exact .unchanged h htranscript
  | ok batch =>
    have hbatch : batch? m = some batch := by
      rw [batch?, if_pos hmark, hread]
      rfl
    exact (onBatch_shown handler batch h htranscript).mono
      fun _ _ hhides => ⟨batch, hbatch, hhides⟩

theorem onContent_shown (handler : Handler) (m : Message) (h : t.Plain)
    (htranscript : w.transcript = some t) :
    let now := (onContent handler m w).2
    ShownSince t w.delivery.history (Hides m now.translator) now := by
  unfold onContent
  split
  · rw [onImageId_eq]
    cases readImageId m with
    | error e => exact .unchanged h htranscript
    | ok id => exact .unchanged h htranscript
  · split
    · exact onTrace_shown handler ‹_› h htranscript
    · have hshown : (present (fun _ => Transcript.showMessage m) w).2.transcript =
          some (t.showMessage m) := congrArg (Option.map (Transcript.showMessage m)) htranscript
      exact .of_message h hshown (List.append_nil _).symm nofun

/-- Shows a message, and tells of the error that it reports. -/
def showFailure (handler : Handler) (m : Message) (message : String) : Act GraphTranslator Unit := do
  present fun _ => Transcript.showMessage m
  tracing (reportFailure handler message)

theorem showFailure_translator (handler : Handler) (m : Message) (message : String)
    (w : Working GraphTranslator) : (showFailure handler m message w).2.translator = w.translator := by
  have hstate : (reportFailure handler message (w.translator.tracer, w.delivery)).2.1 =
      w.translator.tracer := reportFailure_state message _
  exact congrArg (fun tracer => { w.translator with tracer }) hstate

theorem showFailure_shown (handler : Handler) {m : Message} {message : String}
    (hfailure : m.failure? = some message) (h : t.Plain) (htranscript : w.transcript = some t)
    (P : List String → String → Prop) :
    ShownSince t w.delivery.history P (showFailure handler m message w).2 := by
  have hfails : FailsFor (fun text => m.failure? = some text)
      (reportFailure handler message : Reporting Tracer Unit) := .reportFailure hfailure
  obtain ⟨more, hmore, hreason⟩ := hfails (w.translator.tracer, w.delivery)
  have hshown : (showFailure handler m message w).2.transcript = some (t.showMessage m) :=
    congrArg (Option.map (Transcript.showMessage m)) htranscript
  exact .of_message h hshown hmore hreason

theorem onContent_of_unmarked (handler : Handler) {m : Message} (h : ¬ isMarked m = true) :
    onContent handler m = present fun _ => Transcript.showMessage m := by
  rw [isMarked, Bool.or_eq_true, beq_iff_eq, beq_iff_eq, not_or] at h
  rw [onContent, if_neg h.1, if_neg h.2]

/-- A message whose mark says that it carries something is shown after that, and only if it reports
an error; any other message is shown in any case. -/
theorem onMessage_shown (handler : Handler) (m : Message) (h : t.Plain)
    (htranscript : w.transcript = some t) :
    let now := (onMessage handler m w).2
    ShownSince t w.delivery.history (Hides m now.translator) now := by
  have hcontent := onContent_shown handler m h htranscript
  unfold onMessage
  rcases hrun : onContent handler m w with ⟨e | _, u⟩
  · rw [hrun] at hcontent
    rw [Action.bind_run_error hrun]
    exact hcontent
  · rw [hrun] at hcontent
    rw [Action.bind_run_ok hrun]
    cases hfailure : m.failure? with
    | none => exact hcontent
    | some message =>
      dsimp only
      split
      · change ShownSince t w.delivery.history
          (Hides m (showFailure handler m message u).2.translator) (showFailure handler m message u).2
        rw [showFailure_translator]
        exact hcontent.trans (fun _ _ _ => Hides.mono) fun t' htranscript' h' =>
          showFailure_shown handler hfailure h' htranscript' _
      · have hsame : showFailure handler m message w = tracing (reportFailure handler message) u := by
          rw [onContent_of_unmarked handler ‹_›] at hrun
          rw [showFailure, Action.bind_run_ok hrun]
        rw [← hsame]
        exact showFailure_shown handler hfailure h htranscript _

end GraphTranslator

namespace Translator

def step? : Translator → String → Option Nat
  | .legacy _, _ => none
  | .graph state, digest => state.tracer.step? digest

end Translator

/-- The batch that comes with a message. -/
def BackendMessage.batch? : BackendMessage → Option Batch
  | .response m => GraphTranslator.batch? m
  | .status batch => some batch
  | .contextUpload _ => none

namespace Translator

variable {t : Transcript}

/-- How a message hides a failure. -/
def Hides (message : BackendMessage) (translator : Translator) (records : List String)
    (failure : String) : Prop :=
  ∃ batch, message.batch? = some batch ∧ batch.Hides translator.step? records failure

theorem handle_shown (handler : Handler) (message : BackendMessage) {w : Working Translator}
    (h : t.Plain) (htranscript : w.transcript = some t) :
    let now := (handle handler message w).2
    ShownSince t w.delivery.history (Hides message now.translator) now := by
  obtain ⟨translator, delivery, _⟩ := w
  cases htranscript
  cases translator with
  | legacy parser =>
    cases message with
    | response m =>
      exact Legacy.Parser.onShownMessage_shown handler m (w := ⟨parser, delivery, some t⟩) h rfl
    | status batch => exact .unchanged h rfl
    | contextUpload bytes =>
      exact .of_reporting (w := ⟨parser, delivery, some t⟩) (Legacy.Parser.onUpload_failsFor bytes) h rfl
  | graph state =>
    cases message with
    | response m =>
      exact GraphTranslator.onMessage_shown handler m (w := ⟨state, delivery, some t⟩) h rfl
    | status batch =>
      have hbatch := GraphTranslator.onBatch_shown handler batch (w := ⟨state, delivery, some t⟩) h rfl
      exact hbatch.mono fun _ _ hhides => ⟨batch, rfl, hhides⟩
    | contextUpload bytes => exact .unchanged h rfl

/-- Handles messages one after the other, whatever they end with. -/
def after (handler : Handler) (messages : List BackendMessage) (w : Working Translator) :
    Working Translator :=
  messages.foldl (fun w message => (handle handler message w).2) w

theorem after_of_relay {handler : Handler} {messages : List BackendMessage}
    {w u : Working Translator} (h : relay handler messages w = (.ok (), u)) :
    after handler messages w = u := by
  unfold relay at h
  induction messages generalizing w with
  | nil => exact congrArg Prod.snd h
  | cons message messages ih =>
    rw [Action.forEach_cons] at h
    cases hcancelled : w.delivery.cancelled with
    | true =>
      rw [unlessCancelled_of_cancelled _ hcancelled] at h
      cases h
    | false =>
      rw [unlessCancelled_of_not _ hcancelled] at h
      rcases hrun : handle handler message w with ⟨e | _, v⟩
      · rw [hrun] at h
        cases h
      · rw [hrun] at h
        rw [after, List.foldl_cons, hrun]
        exact ih h

theorem after_plain (handler : Handler) (messages : List BackendMessage) {w : Working Translator}
    (h : ∃ t, w.transcript = some t ∧ t.Plain) :
    ∃ t, (after handler messages w).transcript = some t ∧ t.Plain := by
  induction messages generalizing w with
  | nil => exact h
  | cons message messages ih =>
    obtain ⟨t, htranscript, hplain⟩ := h
    obtain ⟨t', _, _, htranscript', hadds, _⟩ := handle_shown handler message hplain htranscript
    exact ih ⟨t', htranscript', hadds.plain⟩

/-- When a message has been handled, the transcript shows every failure that the handler was told of
meanwhile. The only exception is the error of records in a batch of which each has no step or is shown
as cached. The transcript has no colours and its writer never fails; the handler may do what it likes.
A build that has accepted the messages before this one has come to `before`, as has a translator that
was given them whatever they ended with. -/
theorem failures_shown (handler : Handler) (builder : Builder) (cancelled : Bool)
    {transcript : Transcript} (hplain : transcript.Plain) (earlier : List BackendMessage)
    (message : BackendMessage) :
    let start : Working Translator :=
      { translator := .start builder, delivery := { cancelled }, transcript := some transcript }
    let before := after handler earlier start
    let now := (handle handler message before).2
    (∀ w, relay handler earlier start = (.ok (), w) → w = before) ∧
    ∃ t t' records more, before.transcript = some t ∧ now.transcript = some t' ∧
      t'.written = t.written ++ records ∧
      now.delivery.history = before.delivery.history ++ more ∧
      ∀ failure, .buildFailed failure ∈ more →
        (∃ record ∈ records, IsError failure record) ∨ Hides message now.translator records failure := by
  intro start before now
  refine ⟨fun w hrelay => (after_of_relay hrelay).symm, ?_⟩
  obtain ⟨t, htranscript, ht⟩ := after_plain handler earlier (w := start) ⟨transcript, rfl, hplain⟩
  obtain ⟨t', records, more, htranscript', hadds, hhistory, hshown⟩ :=
    handle_shown handler message ht htranscript
  exact ⟨t, t', records, more, htranscript, htranscript', hadds.written, hhistory, hshown⟩

def freshGraph : Working Translator :=
  { translator := .start .buildKit, transcript := some { color := false } }

/-- A record of a vertex that has not started, with an error. -/
def waiting : Vertex :=
  { digest := "d", name := "n", error := "boom" }

def started : Vertex :=
  { waiting with started := some ⟨1, 0⟩ }

def afterRecord (v : Vertex) : Working Translator :=
  (handle .quiet (.status { vertices := [v] }) freshGraph).2

theorem failures_shown_started :
    .buildFailed "boom" ∈ (afterRecord started).delivery.history ∧ ∃ t record,
      (afterRecord started).transcript = some t ∧ record ∈ t.written ∧ IsError "boom" record := by
  have hplain : Plain { color := false } := ⟨rfl, rfl, rfl⟩
  obtain ⟨_, t, t', records, more, _, htranscript', hwritten, hhistory, hshown⟩ :=
    failures_shown .quiet .buildKit false hplain [] (.status { vertices := [started] })
  have htold : .buildFailed "boom" ∈ (afterRecord started).delivery.history := by decide +kernel
  have hin : .buildFailed "boom" ∈ more := by
    have hmore : (afterRecord started).delivery.history = [] ++ more := hhistory
    rwa [hmore] at htold
  refine ⟨htold, t', ?_⟩
  rcases hshown "boom" hin with ⟨record, hrecord, herror⟩ | ⟨_, hbatch, hhides⟩
  · refine ⟨record, htranscript', ?_, herror⟩
    rw [hwritten]
    exact List.mem_append_right _ hrecord
  · cases hbatch
    have hstep : (afterRecord started).translator.step? "d" = some 1 := by decide +kernel
    have hcached := (hhides.cached started List.mem_cons_self rfl 1 hstep).1
    cases hcached

/-- The handler is told of two failures of which none is shown: that of a record without a step, and
that of a record that is shown as cached. -/
theorem failure_not_shown :
    let cached : Vertex := { started with cached := true }
    ((afterRecord waiting).delivery.history = [.buildFailed "boom"] ∧
      (afterRecord waiting).transcript.map (·.written) = some []) ∧
    (afterRecord cached).delivery.history = [.stepStarting 1 "n", .buildFailed "boom"] ∧
      (afterRecord cached).transcript.map (·.written) = some ["#1 n\n", "#1 CACHED\n"] := by
  decide +kernel

end Translator

end BuildProgress
