import BuildProgress.Proofs.Delivery
import Mathlib.Data.List.Basic

/-!
# What the guard keeps over a run

However many events are given to the guard, and whatever it answers to each, the handler is given a
history of one shape: every event but the last was one after which delivery went on. `Told` is that
shape, together with the phase that the history leaves. The numbers that the guard counts are those
of the history.
-/

namespace BuildProgress

set_option autoImplicit false

/-- The handler has asked to stop at one of these events. -/
def Handler.Stops (handler : Handler) (history : List Event) : Prop :=
  ∃ earlier event, earlier ++ [event] <+: history ∧ (handler earlier event).stop = true

def Handler.GoesOn (handler : Handler) : Prop :=
  ∀ earlier event, (handler earlier event).stop = false

/-- Two handlers were told the same up to an event that they answer differently. -/
def Handler.PartsFrom (h h' : Handler) (told told' : List Event) : Prop :=
  ∃ earlier event, earlier ++ [event] <+: told ∧ earlier ++ [event] <+: told' ∧
    h earlier event ≠ h' earlier event

theorem Handler.PartsFrom.mono {h h' : Handler} {told told' more more' : List Event}
    (hparts : h.PartsFrom h' told told') (hmore : told <+: more) (hmore' : told' <+: more') :
    h.PartsFrom h' more more' := by
  obtain ⟨earlier, event, hin, hin', hne⟩ := hparts
  exact ⟨earlier, event, hin.trans hmore, hin'.trans hmore', hne⟩

namespace Delivery

/-- The histories that the guard gives to a handler, each with the phase that it leaves. -/
inductive Told (handler : Handler) : List Event → Phase → Prop where
  | nil : Told handler [] .receiving
  | concat {history : List Event} {event : Event} (before : Told handler history .receiving)
      (started : ∀ step, event = .stepFinished step → ∃ name, .stepStarting step name ∈ history) :
      Told handler (history ++ [event]) (phaseAfter event (handler history event))

variable {handler : Handler} {event : Event} {d : Delivery} {history earlier later : List Event}
  {phase : Phase}

theorem phaseAfter_eq_receiving {reply : Reply} :
    phaseAfter event reply = .receiving ↔ reply.stop = false ∧ event.isFailure = false := by
  unfold phaseAfter
  cases reply.stop <;> cases event.isFailure <;> simp

theorem phaseAfter_eq_aborted {reply : Reply} :
    phaseAfter event reply = .aborted ↔ reply.stop = true := by
  unfold phaseAfter
  cases reply.stop <;> cases event.isFailure <;> simp

namespace Told

/-- Delivery went on after every event of a history but the last. -/
theorem last_or_receiving (h : Told handler history phase) (hin : earlier ++ [event] <+: history) :
    (history = earlier ++ [event] ∧ phase = phaseAfter event (handler earlier event)) ∨
      phaseAfter event (handler earlier event) = .receiving := by
  induction h with
  | nil => simp at hin
  | @concat history last before _ ih =>
    rcases List.prefix_concat_iff.mp hin with heq | hin
    · obtain ⟨rfl, hlast⟩ := List.append_inj' heq rfl
      obtain rfl : event = last := by simpa using hlast
      exact Or.inl ⟨rfl, rfl⟩
    · rcases ih hin with ⟨_, hphase⟩ | hphase
      · exact Or.inr hphase.symm
      · exact Or.inr hphase

theorem last_of_stop (h : Told handler history phase) (hin : earlier ++ [event] <+: history)
    (hstop : (handler earlier event).stop = true) :
    history = earlier ++ [event] ∧ phase = .aborted := by
  have haborted : phaseAfter event (handler earlier event) = .aborted :=
    phaseAfter_eq_aborted.mpr hstop
  rcases h.last_or_receiving hin with ⟨hlast, hphase⟩ | hreceiving
  · exact ⟨hlast, hphase.trans haborted⟩
  · rw [haborted] at hreceiving
    cases hreceiving

theorem last_of_failure (h : Told handler history phase) (hin : earlier ++ [event] <+: history)
    (hfailure : event.isFailure = true) : history = earlier ++ [event] ∧ phase ≠ .receiving := by
  have hended : phaseAfter event (handler earlier event) ≠ .receiving := by
    intro hreceiving
    have hnot := (phaseAfter_eq_receiving.mp hreceiving).2
    rw [hfailure] at hnot
    cases hnot
  rcases h.last_or_receiving hin with ⟨hlast, hphase⟩ | hreceiving
  · exact ⟨hlast, hphase ▸ hended⟩
  · exact absurd hreceiving hended

theorem aborted_iff (h : Told handler history phase) : phase = .aborted ↔ handler.Stops history := by
  constructor
  · intro haborted
    cases h with
    | nil => cases haborted
    | @concat history event _ _ =>
      exact ⟨history, event, List.prefix_rfl, phaseAfter_eq_aborted.mp haborted⟩
  · rintro ⟨earlier, event, hin, hstop⟩
    exact (h.last_of_stop hin hstop).2

theorem receiving_iff (h : Told handler history phase) : phase = .receiving ↔
    ¬ handler.Stops history ∧ ∀ message, .buildFailed message ∉ history := by
  constructor
  · intro hreceiving
    refine ⟨fun hstops => ?_, fun message hin => ?_⟩
    · have haborted := h.aborted_iff.mpr hstops
      rw [hreceiving] at haborted
      cases haborted
    · obtain ⟨earlier, later, rfl⟩ := List.append_of_mem hin
      have hprefix : earlier ++ [.buildFailed message] <+: earlier ++ .buildFailed message :: later :=
        ⟨later, by simp⟩
      exact (h.last_of_failure hprefix rfl).2 hreceiving
  · rintro ⟨hnot, hfailure⟩
    cases h with
    | nil => rfl
    | @concat history event _ _ =>
      rw [phaseAfter_eq_receiving]
      refine ⟨?_, ?_⟩
      · by_contra hstop
        exact hnot ⟨history, event, List.prefix_rfl, by simpa using hstop⟩
      · cases event with
        | buildFailed message => exact absurd (List.mem_append_right _ List.mem_cons_self) (hfailure message)
        | _ => rfl

theorem started_before {step : Nat} (h : Told handler history phase)
    (hin : earlier ++ [.stepFinished step] <+: history) :
    ∃ name, .stepStarting step name ∈ earlier := by
  induction h with
  | nil => simp at hin
  | concat _ started ih =>
    rcases List.prefix_concat_iff.mp hin with heq | hin
    · obtain ⟨rfl, hlast⟩ := List.append_inj' heq rfl
      exact started step (by simpa using hlast.symm)
    · exact ih hin

end Told

/-- The guard agrees with the history. -/
structure Kept (handler : Handler) (d : Delivery) : Prop where
  told : Told handler d.history d.phase
  started : ∀ step, step ∈ d.started ↔ ∃ name, .stepStarting step name ∈ d.history
  delivered : d.delivered = d.history.length
  counted : d.counts.total = d.history.length
  aborts : d.aborts = if d.phase = .aborted then 1 else 0

theorem mem_started_noteStart_iff {step : Nat} : step ∈ (d.noteStart event).started ↔
    step ∈ d.started ∨ ∃ name, event = .stepStarting step name := by
  cases event with
  | stepStarting n name => simp [noteStart, List.mem_insert_iff, or_comm, eq_comm]
  | _ => simp [noteStart]

namespace Kept

theorem initial (handler : Handler) (cancelled : Bool) : Kept handler { cancelled } where
  told := .nil
  started := by simp
  delivered := rfl
  counted := rfl
  aborts := rfl

theorem delivers_iff (h : Kept handler d) : d.Delivers event ↔ d.phase = .receiving ∧
    ∀ step, event = .stepFinished step → ∃ name, .stepStarting step name ∈ d.history := by
  refine and_congr_right fun _ => ?_
  constructor
  · intro hnot step heq
    rw [← h.started]
    by_contra hunstarted
    exact hnot ⟨step, heq, hunstarted⟩
  · rintro hstarted ⟨step, heq, hunstarted⟩
    exact hunstarted ((h.started step).mpr (hstarted step heq))

theorem handOver (h : Kept handler d) (hdelivers : d.Delivers event) :
    Kept handler (handOver handler event (d.noteStart event)).2 := by
  obtain ⟨hphase, hstarted⟩ := h.delivers_iff.mp hdelivers
  have hsame : (d.noteStart event).delivered = d.delivered ∧ (d.noteStart event).counts = d.counts ∧
      (d.noteStart event).aborts = d.aborts := by
    cases event <;> exact ⟨rfl, rfl, rfl⟩
  obtain ⟨hdelivered, hcounts, haborts⟩ := hsame
  refine ⟨?_, ?_, ?_, ?_, ?_⟩
  · simp only [Delivery.handOver, noteStart_history]
    exact .concat (hphase ▸ h.told) hstarted
  · intro step
    simp only [Delivery.handOver, noteStart_history, mem_started_noteStart_iff, h.started,
      List.mem_append, List.mem_singleton, exists_or, eq_comm]
  · simp [Delivery.handOver, hdelivered, h.delivered]
  · simp [Delivery.handOver, hcounts, Counter.total_bump, h.counted]
  · have hnone : d.aborts = 0 := by simp [h.aborts, hphase]
    simp only [Delivery.handOver, noteStart_history, haborts, hnone, phaseAfter_eq_aborted]

theorem emit (h : Kept handler d) (event : Event) : Kept handler (emit handler event d).2 := by
  by_cases hdelivers : d.Delivers event
  · rw [emit_of_delivers hdelivers]
    exact h.handOver hdelivers
  · rw [emit_of_not_delivers hdelivers]
    exact h

end Kept

theorem emit_history_iff :
    (Delivery.emit handler event d).2.history = d.history ++ [event] ↔ d.Delivers event := by
  constructor
  · intro hhistory
    by_contra hnot
    rw [emit_of_not_delivers hnot] at hhistory
    simp at hhistory
  · exact emit_history

/-- The guard after it was given some events one by one, whatever it answered to each. -/
def offerAll (handler : Handler) (events : List Event) (d : Delivery) : Delivery :=
  events.foldl (fun d event => (emit handler event d).2) d

theorem kept_offerAll (events : List Event) (h : Kept handler d) :
    Kept handler (offerAll handler events d) := by
  induction events generalizing d with
  | nil => exact h
  | cons event events ih => exact ih (h.emit event)

theorem offerAll_of_ended (events : List Event) (h : d.phase ≠ .receiving) :
    offerAll handler events d = d := by
  refine List.foldl_fixed' (fun event => ?_) events
  exact emit_of_not_delivers fun hdelivers => h hdelivers.1

theorem history_offerAll (events : List Event) : ∃ told : List Event, told.Sublist events ∧
    (offerAll handler events d).history = d.history ++ told := by
  induction events generalizing d with
  | nil => exact ⟨[], .slnil, by simp [offerAll]⟩
  | cons event events ih =>
    obtain ⟨told, hsub, hhistory⟩ := @ih (Delivery.emit handler event d).2
    have hcons : offerAll handler (event :: events) d =
        offerAll handler events (Delivery.emit handler event d).2 := rfl
    rw [hcons, hhistory]
    by_cases hdelivers : d.Delivers event
    · refine ⟨event :: told, hsub.cons_cons event, ?_⟩
      rw [emit_history hdelivers, List.append_assoc, List.singleton_append]
    · refine ⟨told, hsub.cons event, ?_⟩
      rw [emit_of_not_delivers hdelivers]

theorem emit_of_aborted (h : d.phase = .aborted) : emit handler event d = (.error .callbackFailed, d) := by
  simp [emit, h]

theorem emit_of_aborted_after (handler : Handler) (event : Event) (hopen : d.phase ≠ .aborted)
    (haborted : (emit handler event d).2.phase = .aborted) :
    (emit handler event d).1 = .error .callbackFailed := by
  by_cases hdelivers : d.Delivers event
  · rw [emit_of_delivers hdelivers] at haborted ⊢
    simp only [handOver, phaseAfter_eq_aborted] at haborted ⊢
    rw [if_pos haborted]
  · rw [emit_of_not_delivers hdelivers] at haborted
    exact absurd haborted hopen

theorem emit_cases_of_delivers (handler : Handler) (h : d.Delivers event) :
    ((emit handler event d).1 = .error .callbackFailed ∧
      (emit handler event d).2.phase = .aborted) ∨
    ((emit handler event d).1 = .ok () ∧ (emit handler event d).2.phase =
      if event.isFailure then .terminated else .receiving) := by
  rw [emit_of_delivers h]
  simp only [handOver, phaseAfter]
  cases (handler (d.noteStart event).history event).stop with
  | true => exact Or.inl ⟨rfl, rfl⟩
  | false => exact Or.inr ⟨rfl, rfl⟩

/-- What the guard answers to an event that it does not deliver. -/
def withheld (d : Delivery) (event : Event) : Except BuildError Unit :=
  match d.phase, event with
  | .aborted, _ => .error .callbackFailed
  | .receiving, .stepFinished step => .error (.contractViolation (.finishedBeforeStart step))
  | _, _ => .ok ()

/-- The handler has no part in what is not delivered. -/
theorem emit_eq_withheld (h : ¬ d.Delivers event) :
    emit handler event d = (d.withheld event, d) := by
  cases hphase : d.phase with
  | receiving =>
    obtain ⟨step, rfl, hnot⟩ := finishesUnstarted_of_not_delivers hphase h
    simp [emit, withheld, hphase, hnot]
  | aborted => simp [emit, withheld, hphase]
  | terminated => simp [emit, withheld, hphase]

theorem history_emit (event : Event) (d : Delivery) :
    d.history <+: (emit handler event d).2.history := by
  by_cases hdelivers : d.Delivers event
  · rw [emit_history hdelivers]
    exact List.prefix_append _ _
  · simp only [emit_of_not_delivers hdelivers, List.prefix_rfl]

theorem emit_eq_or_parts (handler handler' : Handler) (event : Event) (d : Delivery) :
    emit handler event d = emit handler' event d ∨
      handler.PartsFrom handler' (emit handler event d).2.history
        (emit handler' event d).2.history := by
  by_cases hdelivers : d.Delivers event
  · by_cases hsame : handler d.history event = handler' d.history event
    · left
      simp [emit_of_delivers hdelivers, handOver, hsame]
    · right
      rw [emit_history hdelivers, emit_history hdelivers]
      exact ⟨d.history, event, List.prefix_rfl, List.prefix_rfl, hsame⟩
  · left
    rw [emit_eq_withheld hdelivers, emit_eq_withheld hdelivers]

/-- The guard delivers each of these events in its turn, if the handler lets it: every finish comes
after a start, and a failure comes last. -/
def Fitting (history events : List Event) : Prop :=
  ∀ earlier event, earlier ++ [event] <+: events →
    (∀ step, event = .stepFinished step → ∃ name, .stepStarting step name ∈ history ++ earlier) ∧
      (event.isFailure = true → events = earlier ++ [event])

/-- The same guard in a build that the caller has not cancelled. -/
def calm (d : Delivery) : Delivery :=
  { d with cancelled := false }

theorem emit_calm (hgoes : handler.GoesOn) (event : Event) (d : Delivery) :
    emit .quiet event d.calm = ((emit handler event d).1, (emit handler event d).2.calm) := by
  by_cases hdelivers : d.Delivers event
  · have hdelivers' : d.calm.Delivers event := hdelivers
    have hnote : d.calm.noteStart event = (d.noteStart event).calm := by
      cases event <;> rfl
    rw [emit_of_delivers hdelivers, emit_of_delivers hdelivers', hnote]
    simp [handOver, calm, phaseAfter, Handler.quiet, hgoes _ _]
  · have hdelivers' : ¬ d.calm.Delivers event := hdelivers
    rw [emit_eq_withheld hdelivers, emit_eq_withheld hdelivers']
    rfl

/-- Of the events that are given to a new guard, the handler is given some, in their order and each
once: none after it asked to stop, none after a failure of the build, and no finish of a step that
was not started. Nothing else is held back. A finish that is refused leaves the guard as it was; what
is delivered is counted, and an abort is counted once. -/
theorem deliveries_accounted (handler : Handler) (cancelled : Bool) (events : List Event) :
    let d := offerAll handler events { cancelled }
    d.history.Sublist events ∧
    (∀ earlier event, earlier ++ [event] <+: d.history → (handler earlier event).stop = true →
      d.history = earlier ++ [event] ∧ ∀ more next,
        offerAll handler more d = d ∧ (emit handler next d).1 = .error .callbackFailed) ∧
    (∀ earlier message, earlier ++ [.buildFailed message] <+: d.history →
      d.history = earlier ++ [.buildFailed message] ∧ ∀ more, offerAll handler more d = d) ∧
    (∀ earlier step, earlier ++ [.stepFinished step] <+: d.history →
      ∃ name, .stepStarting step name ∈ earlier) ∧
    (∀ event step, (emit handler event d).1 = .error (.contractViolation (.finishedBeforeStart step)) →
      (emit handler event d).2 = d) ∧
    (∀ event, (emit handler event d).2.history = d.history ++ [event] ↔
      ¬ handler.Stops d.history ∧ (∀ message, .buildFailed message ∉ d.history) ∧
        ∀ step, event = .stepFinished step → ∃ name, .stepStarting step name ∈ d.history) ∧
    d.delivered = d.history.length ∧ d.counts.total = d.history.length ∧
    (handler.Stops d.history → d.aborts = 1) ∧ (¬ handler.Stops d.history → d.aborts = 0) := by
  intro d
  have h : Kept handler d := kept_offerAll events (.initial handler cancelled)
  refine ⟨?_, ?_, ?_, ?_, ?_, ?_, h.delivered, h.counted, ?_, ?_⟩
  · obtain ⟨told, hsub, hhistory⟩ := @history_offerAll handler { cancelled } events
    have hall : d.history = told := hhistory
    rw [hall]
    exact hsub
  · intro earlier event hin hstop
    obtain ⟨hlast, haborted⟩ := h.told.last_of_stop hin hstop
    refine ⟨hlast, fun more next => ⟨offerAll_of_ended more (by simp [haborted]), ?_⟩⟩
    rw [emit_of_aborted haborted]
  · intro earlier message hin
    obtain ⟨hlast, hended⟩ := h.told.last_of_failure hin rfl
    exact ⟨hlast, fun more => offerAll_of_ended more hended⟩
  · exact fun earlier step hin => h.told.started_before hin
  · intro event step hrejected
    obtain ⟨_, rfl, hnot⟩ := emit_error_finishedBeforeStart hrejected
    exact emit_of_not_delivers fun hdelivers => hdelivers.2 ⟨step, rfl, hnot⟩
  · intro event
    rw [← and_assoc, ← h.told.receiving_iff, ← h.delivers_iff]
    exact emit_history_iff
  · intro hstops
    rw [h.aborts, if_pos (h.told.aborted_iff.mpr hstops)]
  · intro hnot
    rw [h.aborts, if_neg (fun haborted => hnot (h.told.aborted_iff.mp haborted))]

end Delivery

end BuildProgress
