import BuildProgress.Graph.Tracer
import BuildProgress.Proofs.Delivery
import Mathlib.Data.List.Nodup

/-!
# The moves of the tracer

Whatever a batch holds, the tracer does only five things with it: it starts a step for a new digest,
starts a finished step again, reports progress of a step, finishes an open step, or reports a
failure. Each is a change of what is known together with one event that is given to the guard.

A run is a path of moves, also where a call fails half way. What every move keeps, every run keeps.
-/

namespace BuildProgress.Tracer

set_option autoImplicit false

section Steps

variable {t : Tracer} {digest other : String} {step : Nat}

theorem step?_eq_some_iff :
    t.step? digest = some step ↔ digest ∈ t.numbered ∧ step = t.numbered.idxOf digest + 1 := by
  have hidx (xs : List String) : xs.idxOf? digest =
      if digest ∈ xs then some (xs.idxOf digest) else none := by
    induction xs with
    | nil => simp
    | cons x xs ih =>
      rw [List.idxOf?_cons, List.idxOf_cons, ih]
      by_cases hx : x = digest
      · simp [hx]
      · have hbeq : (x == digest) = false := beq_eq_false_iff_ne.mpr hx
        by_cases hin : digest ∈ xs <;> simp [hbeq, Ne.symm hx, hin]
  rw [step?, hidx]
  by_cases hin : digest ∈ t.numbered
  · simp [hin, eq_comm]
  · simp [hin]

theorem step?_eq_none_iff : t.step? digest = none ↔ digest ∉ t.numbered := by
  simp [step?]

theorem step?_bounds (h : t.step? digest = some step) : 1 ≤ step ∧ step ≤ t.numbered.length := by
  obtain ⟨hin, rfl⟩ := step?_eq_some_iff.mp h
  exact ⟨Nat.le_add_left _ _, List.idxOf_lt_length_of_mem hin⟩

theorem step?_inj (h : t.step? digest = some step) (h' : t.step? other = some step) :
    digest = other := by
  obtain ⟨hin, heq⟩ := step?_eq_some_iff.mp h
  obtain ⟨_, heq'⟩ := step?_eq_some_iff.mp h'
  exact (List.idxOf_inj hin).mp (Nat.succ.inj (heq.symm.trans heq'))

theorem step?_mono {t' : Tracer} (hgrows : t.numbered <+: t'.numbered)
    (h : t.step? digest = some step) : t'.step? digest = some step := by
  obtain ⟨hin, rfl⟩ := step?_eq_some_iff.mp h
  exact step?_eq_some_iff.mpr ⟨hgrows.subset hin, by rw [hgrows.idxOf_eq_of_mem hin]⟩

theorem step?_number_self (h : t.step? digest = none) :
    (t.number digest).step? digest = some (t.numbered.length + 1) := by
  rw [step?_eq_none_iff] at h
  rw [step?_eq_some_iff]
  simp [number, List.idxOf_append_of_notMem h]

theorem step?_number_of_ne (h : other ≠ digest) :
    (t.number digest).step? other = t.step? other := by
  cases hstep : t.step? other with
  | some step => exact step?_mono (List.prefix_append _ _) hstep
  | none =>
    rw [step?_eq_none_iff] at hstep ⊢
    simp [number, hstep, h]

theorem mem_finished_finish :
    other ∈ (t.finish digest).finished ↔ other ∈ t.finished ∨ other = digest := by
  simp [finish]

theorem mem_finished_reopen :
    other ∈ (t.reopen digest).finished ↔ other ∈ t.finished ∧ other ≠ digest := by
  simp [reopen]

end Steps

/-- What the tracer can do: how what it knows changes, and the event that it gives to the guard. -/
inductive Move (t : Tracer) : Tracer → Event → Prop where
  /-- A new digest gets the next number. -/
  | start {digest : String} (name : String) (fresh : t.step? digest = none) :
      Move t (t.number digest) (.stepStarting (t.numbered.length + 1) name)
  | restart {digest : String} {step : Nat} (name : String) (known : t.step? digest = some step)
      (done : digest ∈ t.finished) : Move t (t.reopen digest) (.stepStarting step name)
  /-- Something happens in a step. -/
  | progress {digest : String} {step : Nat} {event : Event} (known : t.step? digest = some step)
      (about : event.step? = some step) (starts : event.kind ≠ .stepStarting)
      (finishes : event.kind ≠ .stepFinished) : Move t t event
  | finish {digest : String} {step : Nat} (known : t.step? digest = some step)
      (undone : digest ∉ t.finished) : Move t (t.finish digest) (.stepFinished step)
  | fail (message : String) : Move t t (.buildFailed message)

/-- The states that moves lead to, whatever the guard answers. -/
inductive Reaches (handler : Handler) (s : Tracer × Delivery) : Tracer × Delivery → Prop where
  | refl : Reaches handler s s
  | move {t t' : Tracer} {d : Delivery} {event : Event} (before : Reaches handler s (t, d))
      (next : Move t t' event) : Reaches handler s (t', (Delivery.emit handler event d).2)

namespace Reaches

variable {handler : Handler} {s u v : Tracer × Delivery}

theorem single {t t' : Tracer} {event : Event} (h : Move t t' event) (d : Delivery) :
    Reaches handler (t, d) (t', (Delivery.emit handler event d).2) :=
  .move .refl h

theorem trans (h : Reaches handler s u) (h' : Reaches handler u v) : Reaches handler s v := by
  induction h' with
  | refl => exact h
  | move _ next ih => exact ih.move next

theorem keeps {P : Tracer × Delivery → Prop}
    (hmove : ∀ {t t' : Tracer} {event : Event} (d : Delivery), Move t t' event → P (t, d) →
      P (t', (Delivery.emit handler event d).2))
    (h : Reaches handler s u) (hs : P s) : P u := by
  induction h with
  | refl => exact hs
  | move _ next ih => exact hmove _ next ih

end Reaches

end BuildProgress.Tracer
