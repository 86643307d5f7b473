import BuildProgress.Proofs.Tracer.Restart
import BuildProgress.Proofs.Transcript.Tally
import BuildProgress.Proofs.Translator.Announced

/-!
# Ends that are told and shown

The handler is told that a step has finished by one part of the program, and the transcript shows it
by another: the tracer goes over a batch twice and remembers digests, the transcript goes over it
once and remembers steps. As long as every message is accepted and no batch holds two records of one
vertex, each finish that is told is shown once, and so is each finish after a restart.
-/

namespace BuildProgress

set_option autoImplicit false

open Transcript Working

/-- At most one record of each vertex, and none that is cached without being completed. -/
structure Batch.SaysOnce (batch : Batch) : Prop where
  once : (batch.vertices.map (·.digest)).Nodup
  cached : ∀ v ∈ batch.vertices, v.cached = true → v.isCompleted = true

theorem count_finish_turns (step : Nat) (events : List Event) :
    (turns step events).count .finish = events.count (.stepFinished step) := by
  induction events with
  | nil => rfl
  | cons event events ih =>
    rw [List.count_cons, ← ih, turns, List.filterMap_cons]
    cases event with
    | stepFinished n =>
      by_cases hn : n = step
      · simp [Event.turn?, hn, turns]
      · simp [Event.turn?, hn, turns]
    | stepStarting n name => by_cases hn : n = step <;> simp [Event.turn?, hn, turns]
    | _ => simp [Event.turn?, turns]

namespace Tracer

variable {handler : Handler} {t t' : Tracer} {event : Event} {step : Nat} {batch : Batch}
  {s u : Tracer × Delivery} {digest : String}

/-- Of a number that no digest has, neither a start nor a finish was told. -/
def Untold (s : Tracer × Delivery) : Prop :=
  ∀ step, (∀ digest, s.1.step? digest ≠ some step) → turns step s.2.history = []

theorem Move.turn?_eq_none (h : Move t t' event) (hunknown : ∀ digest, t'.step? digest ≠ some step) :
    event.turn? step = none := by
  cases h with
  | @start digest name fresh =>
    apply Event.turn?_start_of_ne
    intro heq
    exact hunknown digest (heq ▸ step?_number_self fresh)
  | @restart digest n name known _ =>
    apply Event.turn?_start_of_ne
    intro heq
    exact hunknown digest (heq ▸ known)
  | progress _ _ starts finishes => exact Event.turn?_eq_none starts finishes
  | @finish digest n known _ =>
    apply Event.turn?_finish_of_ne
    intro heq
    exact hunknown digest (heq ▸ known)
  | fail _ => rfl

theorem Untold.move (d : Delivery) (hmove : Move t t' event) (h : Untold (t, d)) :
    Untold (t', (Delivery.emit handler event d).2) := by
  intro step hunknown
  have hbefore : turns step d.history = [] :=
    h step fun digest hstep => hunknown digest (step?_mono hmove.prefix_numbered hstep)
  by_cases hdelivers : d.Delivers event
  · rw [Delivery.emit_history hdelivers, turns_concat_of_none (hmove.turn?_eq_none hunknown)]
    exact hbefore
  · rw [Delivery.emit_of_not_delivers hdelivers]
    exact hbefore

theorem Untold.trace (h : Untold s) (handler : Handler) (batch : Batch) :
    Untold (trace handler batch s).2 :=
  (Stepwise.trace batch s).1.keeps Untold.move h

theorem conclude_error {v : Vertex} (hok : (conclude handler v s).1 = .ok ()) : v.error = "" := by
  obtain ⟨t, d⟩ := s
  rcases conclude_cases handler v t d with
    ⟨_, hrun⟩ | ⟨herror, _⟩ | ⟨herror, _⟩ | ⟨_, herror, _⟩
  · rw [hrun] at hok
    obtain ⟨_, _, _, hfail, _⟩ := Action.exists_of_bind_ok hok
    cases hfail
  · exact herror
  · exact herror
  · exact herror

theorem concludeAll_error {vertices : List Vertex}
    (hok : (Action.forEach (conclude handler) vertices s).1 = .ok ()) :
    ∀ v ∈ vertices, v.error = "" := by
  induction vertices generalizing s with
  | nil => simp
  | cons v vertices ih =>
    have hcons : Action.forEach (conclude handler) (v :: vertices) =
        conclude handler v >>= fun _ => Action.forEach (conclude handler) vertices := rfl
    rw [hcons] at hok
    obtain ⟨_, u, hv, hrest, _⟩ := Action.exists_of_bind_ok hok
    exact List.forall_mem_cons.mpr ⟨conclude_error (by rw [hv]), ih hrest⟩

/-- A batch that is accepted is in order, and none of its records reports an error. -/
theorem accepted_batch (hok : (trace handler batch s).1 = .ok ()) :
    processed batch = shownVertices batch.vertices ∧ ∀ v ∈ batch.vertices, v.error = "" := by
  unfold processed shownVertices
  rw [trace_run] at hok
  cases horder : orderVertices batch.vertices with
  | error e =>
    rw [horder] at hok
    cases hok
  | ok vertices =>
    rw [horder] at hok
    obtain ⟨_, _, _, hok, _⟩ := Action.exists_of_bind_ok hok
    obtain ⟨_, _, _, hok, _⟩ := Action.exists_of_bind_ok hok
    obtain ⟨_, _, _, hok, _⟩ := Action.exists_of_bind_ok hok
    refine ⟨rfl, fun v hv => concludeAll_error hok v ?_⟩
    exact (orderVertices_perm horder).mem_iff.mpr hv

theorem recordsOf_singleton (digest : String) (batch : Batch) :
    recordsOf digest [batch] = (processed batch).filter (·.digest = digest) := by
  simp [recordsOf]

theorem recordsOf_length (hprocessed : processed batch = shownVertices batch.vertices)
    (honce : (batch.vertices.map (·.digest)).Nodup) (digest : String) :
    (recordsOf digest [batch]).length ≤ 1 := by
  have hshown : ((shownVertices batch.vertices).map (·.digest)).Nodup :=
    (((shownVertices_perm batch.vertices).map _).nodup_iff).mpr honce
  have hcount : (recordsOf digest [batch]).length =
      ((shownVertices batch.vertices).map (·.digest)).count digest := by
    rw [recordsOf_singleton, hprocessed, List.count, List.countP_map, List.countP_eq_length_filter]
    rfl
  rw [hcount]
  exact List.nodup_iff_count_le_one.mp hshown digest

end Tracer

/-- Tracer and transcript have counted the same ends of every step. -/
structure Mirrored (s : Tracer × Delivery) (t : Transcript) (pieces : List Piece) : Prop where
  running : Tracer.Running s
  untold : Tracer.Untold s
  tallies : ∀ step, Transcript.tally step t pieces = Turn.tally (turns step s.2.history)

namespace Mirrored

variable {handler : Handler} {s : Tracer × Delivery} {t : Transcript} {pieces : List Piece}

theorem turns_before (h : Mirrored s t pieces) {batch : Batch} {digest : String} {step : Nat}
    (hstep : (Tracer.trace handler batch s).2.1.step? digest = some step) :
    turns step s.2.history = Tracer.told digest s := by
  cases hold : s.1.step? digest with
  | some n =>
    have hkept : (Tracer.trace handler batch s).2.1.step? digest = some n :=
      Tracer.trace_keeps_step hold
    obtain rfl := Option.some.inj (hkept.symm.trans hstep)
    exact (Tracer.told_of_some hold).symm
  | none =>
    rw [Tracer.told_of_none hold]
    apply h.untold step
    intro other hother
    have hkept : (Tracer.trace handler batch s).2.1.step? other = some step :=
      Tracer.trace_keeps_step hother
    obtain rfl := Tracer.step?_inj hkept hstep
    rw [hold] at hother
    cases hother

theorem showBatch (h : Mirrored s t pieces) {batch : Batch} (honce : batch.SaysOnce)
    (hok : (Tracer.trace handler batch s).1 = .ok ()) :
    let now := (Tracer.trace handler batch s).2
    Mirrored now (t.showBatch now.1.step? batch) (pieces ++ batchPieces now.1.step? batch t) where
  running := (h.running.trace batch "" hok).1
  untold := h.untold.trace handler batch
  tallies := by
    intro step
    let now := (Tracer.trace handler batch s).2
    obtain ⟨hprocessed, herror⟩ := Tracer.accepted_batch hok
    have hordinary : ∀ v ∈ batch.vertices, Ordinary v :=
      fun v hv => ⟨herror v hv, honce.cached v hv⟩
    rw [showBatch_tally hordinary, h.tallies]
    by_cases hknown : ∃ digest, now.1.step? digest = some step
    · obtain ⟨digest, hstep⟩ := hknown
      have hrecords : (shownVertices batch.vertices).filter (now.1.step? ·.digest = some step) =
          Tracer.recordsOf digest [batch] := by
        rw [Tracer.recordsOf_singleton, hprocessed]
        apply List.filter_congr
        intro v _
        have hsame : now.1.step? v.digest = some step ↔ v.digest = digest :=
          ⟨fun hv => Tracer.step?_inj hv hstep, fun hv => hv ▸ hstep⟩
        simp [hsame]
      have hlength : (Tracer.recordsOf digest [batch]).length ≤ 1 :=
        Tracer.recordsOf_length hprocessed honce.once digest
      have htold : Tracer.told digest now =
          Turn.replayBatch (Tracer.told digest s) (Tracer.recordsOf digest [batch]) :=
        (h.running.trace batch digest hok).2
      have hnow : Tracer.told digest now = turns step now.2.history := Tracer.told_of_some hstep
      rw [hrecords, h.turns_before hstep, ← Turn.tally_replayBatch hlength, ← htold, hnow]
    · have hunknown : ∀ digest, now.1.step? digest ≠ some step :=
        fun digest hstep => hknown ⟨digest, hstep⟩
      have hbefore : ∀ digest, s.1.step? digest ≠ some step :=
        fun digest hstep => hunknown digest (Tracer.trace_keeps_step hstep)
      have hnone : (shownVertices batch.vertices).filter (now.1.step? ·.digest = some step) = [] := by
        simp [hunknown]
      rw [hnone, h.untold step hbefore, h.untold.trace handler batch step hunknown]
      rfl

theorem showMessage (h : Mirrored s t pieces) (m : Message) :
    Mirrored s (t.showMessage m) (pieces ++ (Exhibit.message m).pieces t) where
  running := h.running
  untold := h.untold
  tallies := by
    intro step
    rw [← h.tallies]
    apply tally_append
    · rw [(SameSteps.showMessage t m).finished]
    · intro line hin
      obtain ⟨_, _, heq⟩ := Option.map_eq_some_iff.mp (Option.mem_toList.mp (mem_linesOf.mp hin))
      cases heq

end Mirrored

namespace GraphTranslator

/-- The transcript has been shown these things since it was `t₀`, and has counted what was told. -/
structure Mirrors (t₀ : Transcript) (shown : List Exhibit) (w : Working GraphTranslator) : Prop where
  transcript : w.transcript = some (exhibitAll shown t₀)
  mirrored : Mirrored (w.translator.tracer, w.delivery) (exhibitAll shown t₀) (piecesOf shown t₀)

variable {handler : Handler} {t₀ : Transcript} {shown : List Exhibit} {w : Working GraphTranslator}

theorem reportFailure_not_ok (message : String) (w : Working GraphTranslator) :
    (tracing (reportFailure handler message) w).1 ≠ .ok () := by
  intro hok
  obtain ⟨_, _, _, hfail, _⟩ : ∃ a u, report handler (.buildFailed message)
      (w.translator.tracer, w.delivery) = (.ok a, u) ∧ _ := Action.exists_of_bind_ok hok
  cases hfail

/-- A message that is accepted reports no error, so that nothing follows what it carries. -/
theorem accepted_message {m : Message} (hok : (onMessage handler m w).1 = .ok ()) :
    m.failure? = none ∧ onMessage handler m w = onContent handler m w := by
  unfold onMessage at hok ⊢
  rcases hrun : onContent handler m w with ⟨e | _, u⟩
  · rw [Action.bind_run_error hrun] at hok
    cases hok
  · rw [Action.bind_run_ok hrun] at hok ⊢
    cases hfailure : m.failure? with
    | none => exact ⟨rfl, rfl⟩
    | some message =>
      rw [hfailure] at hok
      dsimp only at hok
      by_cases hmark : isMarked m = true
      · rw [if_pos hmark] at hok
        exact absurd hok (reportFailure_not_ok message _)
      · rw [if_neg hmark] at hok
        exact absurd hok (reportFailure_not_ok message u)

namespace Mirrors

theorem showMessage (h : Mirrors t₀ shown w) (m : Message) :
    Mirrors t₀ (shown ++ [.message m]) (present (fun _ => Transcript.showMessage m) w).2 where
  transcript := by
    rw [exhibitAll_concat]
    exact congrArg (Option.map (Transcript.showMessage m)) h.transcript
  mirrored := by
    rw [exhibitAll_concat, piecesOf_concat]
    exact h.mirrored.showMessage m

theorem onBatch (h : Mirrors t₀ shown w) {batch : Batch} (honce : batch.SaysOnce)
    (hok : (onBatch handler batch w).1 = .ok ()) :
    let now := (onBatch handler batch w).2
    Mirrors t₀ (shown ++ [.batch now.translator.tracer.step? batch]) now where
  transcript := by
    rw [exhibitAll_concat]
    exact congrArg (Option.map _) h.transcript
  mirrored := by
    rw [exhibitAll_concat, piecesOf_concat]
    exact h.mirrored.showBatch honce hok

theorem onContent (h : Mirrors t₀ shown w) {m : Message} (hmark : isMarked m = true)
    (honce : ∀ batch, batch? m = some batch → batch.SaysOnce)
    (hok : (onContent handler m w).1 = .ok ()) :
    let now := (onContent handler m w).2
    Mirrors t₀ (shown ++ (batch? m).toList.map (.batch now.translator.tracer.step?)) now := by
  unfold batch? at honce ⊢
  unfold GraphTranslator.onContent at hok ⊢
  by_cases himage : m.id = Message.imageIdMark
  · have hother : m.id ≠ Message.traceMark := by
      rw [himage]
      decide
    rw [if_pos himage, if_neg hother, onImageId_eq]
    simp only [Option.toList_none, List.map_nil, List.append_nil]
    cases readImageId m with
    | error e => exact h
    | ok id => exact ⟨h.transcript, h.mirrored⟩
  · have htrace : m.id = Message.traceMark := by
      simpa [isMarked, himage] using hmark
    rw [if_neg himage, if_pos htrace, onTrace_eq] at hok
    rw [if_pos htrace] at honce
    rw [if_neg himage, if_pos htrace, if_pos htrace, onTrace_eq]
    cases hread : readBatch m with
    | error e =>
      rw [hread] at hok
      cases hok
    | ok batch =>
      rw [hread] at hok honce
      exact h.onBatch (honce batch rfl) hok

theorem onMessage (h : Mirrors t₀ shown w) {m : Message}
    (honce : ∀ batch, batch? m = some batch → batch.SaysOnce)
    (hok : (onMessage handler m w).1 = .ok ()) :
    Mirrors t₀ (shown ++ exhibits handler m w) (onMessage handler m w).2 := by
  obtain ⟨hnone, hcontent⟩ := accepted_message hok
  rw [hcontent] at hok ⊢
  rw [exhibits]
  by_cases hmark : isMarked m = true
  · have h' := h.onContent hmark honce hok
    rw [if_pos hmark, hnone]
    simpa using h'
  · rw [if_neg hmark, onContent_of_unmarked handler hmark]
    exact h.showMessage m

end Mirrors

end GraphTranslator

namespace Translator

open GraphTranslator (Mirrors)

variable {t₀ : Transcript} {shown : List Exhibit}

theorem handle_mirrors (handler : Handler) {message : BackendMessage} {state : GraphTranslator}
    {delivery : Delivery} {t : Option Transcript}
    (h : Mirrors t₀ shown { translator := state, delivery, transcript := t })
    (honce : ∀ batch, message.batch? = some batch → batch.SaysOnce) :
    let w : Working Translator := { translator := .graph state, delivery, transcript := t }
    (handle handler message w).1 = .ok () → ∃ now : Working GraphTranslator,
      (handle handler message w).2 = { now with translator := .graph now.translator } ∧
      Mirrors t₀ (shown ++ exhibits handler message w) now := by
  intro w hok
  cases message with
  | response m => exact ⟨_, rfl, h.onMessage honce hok⟩
  | status batch => exact ⟨_, rfl, h.onBatch (honce batch rfl) hok⟩
  | contextUpload bytes => cases hok

theorem after_mirrors (handler : Handler) {messages : List BackendMessage}
    {w : Working GraphTranslator} (h : Mirrors t₀ shown w)
    (honce : ∀ message ∈ messages, ∀ batch, message.batch? = some batch → batch.SaysOnce) :
    let w' : Working Translator := { w with translator := .graph w.translator }
    (Action.forEach (handle handler) messages w').1 = .ok () → ∃ now : Working GraphTranslator,
      after handler messages w' = { now with translator := .graph now.translator } ∧
      Mirrors t₀ (shown ++ exhibitsOf handler messages w') now := by
  intro w' hok
  induction messages generalizing w shown with
  | nil =>
    refine ⟨w, rfl, ?_⟩
    simpa [exhibitsOf] using h
  | cons message messages ih =>
    obtain ⟨hmessage, hmessages⟩ := List.forall_mem_cons.mp honce
    have hcons : Action.forEach (handle handler) (message :: messages) =
        handle handler message >>= fun _ => Action.forEach (handle handler) messages := rfl
    rw [hcons] at hok
    obtain ⟨_, u, hfirst, hrest, _⟩ := Action.exists_of_bind_ok hok
    have haccepted : (handle handler message w').1 = .ok () := by rw [hfirst]
    obtain ⟨next, hnext, hmirrors⟩ := handle_mirrors handler h hmessage haccepted
    have hu : u = { next with translator := .graph next.translator } := by rw [← hnext, hfirst]
    rw [hu] at hrest
    obtain ⟨now, hnow, hlast⟩ := ih hmirrors hmessages hrest
    rw [← hnext, List.append_assoc] at hlast
    rw [← hnext] at hnow
    exact ⟨now, hnow, hlast⟩

/-- A run of the graph's translator in which every message is accepted, no batch holds two records of
one vertex, and no record is cached without being completed: after each message, the transcript has
shown the end of each step as often as the handler was told that it finished. -/
theorem finishes_shown (handler : Handler) (messages : List BackendMessage) (cancelled color : Bool)
    (readings : List String) :
    let blank : Transcript := { color, readings }
    let fresh : Working Translator :=
      { translator := .start .buildKit, delivery := { cancelled }, transcript := some blank }
    (Action.forEach (handle handler) messages fresh).1 = .ok () →
    (∀ message ∈ messages, ∀ batch, message.batch? = some batch → batch.SaysOnce) →
    ∀ earlier, earlier <+: messages →
      let now := after handler earlier fresh
      let pieces := piecesOf (exhibitsOf handler earlier fresh) blank
      ∃ t, now.transcript = some t ∧ t.written = pieces.map (Piece.text color) ∧
        ∀ step, (linesOf step pieces).countP Line.isFinish =
          now.delivery.history.count (.stepFinished step) := by
  intro blank fresh haccepted honce earlier hpre now pieces
  have hrunning : Tracer.Running ({}, { cancelled }) := ⟨rfl, Tracer.Live.initial⟩
  have hfresh : Mirrors blank [] { translator := {}, delivery := { cancelled }, transcript := some blank } :=
    ⟨rfl, hrunning, fun _ _ => rfl, fun _ => rfl⟩
  obtain ⟨later, rfl⟩ := hpre
  have hearlier : (Action.forEach (handle handler) earlier fresh).1 = .ok () := by
    rw [Action.forEach_append] at haccepted
    rcases hrun : Action.forEach (handle handler) earlier fresh with ⟨e | _, u⟩
    · rw [hrun] at haccepted
      cases haccepted
    · rfl
  obtain ⟨state, hnow, htranscript, hmirrored⟩ := after_mirrors handler hfresh
    (fun message hin => honce message (List.mem_append_left _ hin)) hearlier
  change now = _ at hnow
  have hgrows : Grows blank pieces (exhibitAll (exhibitsOf handler earlier fresh) blank) :=
    .exhibitAll ⟨rfl, rfl⟩ _
  rw [hnow]
  refine ⟨_, htranscript, hgrows.written, fun step => ?_⟩
  rw [← count_finish_turns]
  exact congrArg Tally.times (hmirrored.tallies step)

def seenDone : Vertex := { digest := "d", name := "n", completed := some ⟨1, 0⟩ }

/-- Completed, running again, completed again. -/
def restart : List BackendMessage :=
  [.status { vertices := [seenDone] }, .status { vertices := [{ seenDone with completed := none }] },
    .status { vertices := [seenDone] }]

/-- A clock that goes on between the two ends. -/
def timed : Transcript :=
  { color := false, readings := ["0.750", "2.500"] }

theorem finishes_shown_restart :
    let fresh : Working Translator := { freshGraph with transcript := some timed }
    (Action.forEach (handle .quiet) restart fresh).1 = .ok () ∧
      (after .quiet restart fresh).transcript.map (·.written) =
        some ["#1 n\n", "#1 DONE 0.750\n", "#1 DONE 2.500\n"] ∧
      (linesOf 1 (piecesOf (exhibitsOf .quiet restart fresh) timed)).countP Line.isFinish = 2 := by
  intro fresh
  have haccepted : (Action.forEach (handle .quiet) restart fresh).1 = .ok () := by decide +kernel
  have honce : ∀ message ∈ restart, ∀ batch, message.batch? = some batch → batch.SaysOnce := by
    intro message hin batch hbatch
    simp only [restart, List.mem_cons, List.not_mem_nil, or_false] at hin
    rcases hin with rfl | rfl | rfl <;> cases hbatch <;> exact ⟨by decide, by decide⟩
  obtain ⟨_, _, _, hcount⟩ := finishes_shown .quiet restart false false ["0.750", "2.500"] haccepted
    honce restart List.prefix_rfl
  refine ⟨haccepted, by decide +kernel, (hcount 1).trans ?_⟩
  decide +kernel

end Translator

end BuildProgress
