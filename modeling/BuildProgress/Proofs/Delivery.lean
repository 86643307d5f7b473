import BuildProgress.Delivery
import Mathlib.Tactic.ByContra

/-!
# What the guard lets through

An event reaches the handler exactly if delivery is still open and the event does not finish a step
that has not started. All else leaves the guard as it was.
-/

namespace BuildProgress.Delivery

set_option autoImplicit false

variable {handler : Handler} {event : Event} {d : Delivery}

def FinishesUnstarted (d : Delivery) (event : Event) : Prop :=
  ∃ step, event = .stepFinished step ∧ step ∉ d.started

/-- The event reaches the handler. -/
def Delivers (d : Delivery) (event : Event) : Prop :=
  d.phase = .receiving ∧ ¬ d.FinishesUnstarted event

@[simp] theorem noteStart_history (d : Delivery) (event : Event) :
    (d.noteStart event).history = d.history := by
  cases event <;> rfl

theorem mem_started_noteStart {step : Nat} (h : step ∈ d.started) :
    step ∈ (d.noteStart event).started := by
  cases event with
  | stepStarting _ _ => exact List.mem_insert_of_mem h
  | _ => exact h

/-- An open guard refuses nothing else. -/
theorem finishesUnstarted_of_not_delivers (hphase : d.phase = .receiving) (h : ¬ d.Delivers event) :
    ∃ step, event = .stepFinished step ∧ step ∉ d.started := by
  by_contra hnot
  exact h ⟨hphase, hnot⟩

theorem emit_of_delivers (h : d.Delivers event) :
    emit handler event d = handOver handler event (d.noteStart event) := by
  obtain ⟨hphase, hstarted⟩ := h
  cases event with
  | stepFinished step =>
    have hin : step ∈ d.started := by
      by_contra hnot
      exact hstarted ⟨step, rfl, hnot⟩
    simp [emit, hphase, hin, noteStart]
  | _ => simp [emit, hphase]

theorem emit_of_not_delivers (h : ¬ d.Delivers event) : (emit handler event d).2 = d := by
  cases hphase : d.phase with
  | receiving =>
    obtain ⟨step, rfl, hnot⟩ := finishesUnstarted_of_not_delivers hphase h
    simp [emit, hphase, hnot]
  | aborted => simp [emit, hphase]
  | terminated => simp [emit, hphase]

theorem emit_history (h : d.Delivers event) :
    (emit handler event d).2.history = d.history ++ [event] := by
  simp [emit_of_delivers h, handOver]

theorem emit_started (h : d.Delivers event) :
    (emit handler event d).2.started = (d.noteStart event).started := by
  simp [emit_of_delivers h, handOver]

/-- An event that ends neither the build nor delivery leaves delivery open. -/
theorem emit_phase_of_ok (h : d.Delivers event) (hok : (emit handler event d).1 = .ok ())
    (hfailure : event.isFailure = false) : (emit handler event d).2.phase = .receiving := by
  rw [emit_of_delivers h] at hok ⊢
  simp only [handOver, noteStart_history, phaseAfter, hfailure] at hok ⊢
  cases hstop : (handler d.history event).stop with
  | true => simp [hstop] at hok
  | false => rfl

/-- While delivery is open, only an event that is refused or at which the handler stops fails. -/
theorem delivers_of_ok (hphase : d.phase = .receiving) (hok : (emit handler event d).1 = .ok ()) :
    d.Delivers event := by
  refine ⟨hphase, ?_⟩
  rintro ⟨step, rfl, hnot⟩
  simp [emit, hphase, hnot] at hok

theorem emit_error_finishedBeforeStart {step : Nat}
    (h : (emit handler event d).1 = .error (.contractViolation (.finishedBeforeStart step))) :
    d.phase = .receiving ∧ event = .stepFinished step ∧ step ∉ d.started := by
  by_cases hdelivers : d.Delivers event
  · rw [emit_of_delivers hdelivers, handOver] at h
    simp only at h
    split at h <;> cases h
  · cases hphase : d.phase with
    | receiving =>
      obtain ⟨other, rfl, hnot⟩ := finishesUnstarted_of_not_delivers hphase hdelivers
      simp only [emit, hphase, hnot, if_false, Except.error.injEq, BuildError.contractViolation.injEq,
        ContractFault.finishedBeforeStart.injEq] at h
      subst h
      exact ⟨rfl, rfl, hnot⟩
    | aborted => simp [emit, hphase] at h
    | terminated => simp [emit, hphase] at h

end BuildProgress.Delivery
