import BuildProgress.Proofs.Graph.Order
import BuildProgress.Proofs.Tracer.Move
import Mathlib.Data.List.Induction

/-!
# Batches as paths of moves

What the tracer does with one record, counter or chunk of output is one move, or nothing, or an
error of its own. A batch is a path of such moves, and so is a sequence of batches, each of which is
given to the tracer also if an earlier one failed.
-/

namespace BuildProgress.Tracer

set_option autoImplicit false

variable {handler : Handler}

/-- Changes what is known, then gives an event to the guard. -/
def carryOut (handler : Handler) (t : Tracer) (event : Event) (d : Delivery) :
    Except BuildError Unit × (Tracer × Delivery) :=
  ((Delivery.emit handler event d).1, (t, (Delivery.emit handler event d).2))

def after (handler : Handler) (batches : List Batch) : Tracer × Delivery :=
  batches.foldl (fun s batch => (trace handler batch s).2) ({}, {})

theorem after_append (handler : Handler) (batches more : List Batch) :
    after handler (batches ++ more) =
      more.foldl (fun s batch => (trace handler batch s).2) (after handler batches) :=
  List.foldl_append

theorem after_concat (handler : Handler) (batches : List Batch) (batch : Batch) :
    after handler (batches ++ [batch]) = (trace handler batch (after handler batches)).2 := by
  rw [after_append]
  rfl

section Cases

variable (handler)

theorem findStep_run (digest : String) (t : Tracer) (d : Delivery) :
    findStep digest (t, d) = match t.step? digest with
      | some step => (.ok step, (t, d))
      | none => (.error (.contractViolation (.unknownVertex digest)), (t, d)) := by
  unfold findStep stepOf
  rw [Action.bind_run]
  simp only [look, Action.view, Action.ofExcept, id]
  cases t.step? digest <;> rfl

theorem announce_cases (v : Vertex) (t : Tracer) (d : Delivery) :
    (t.step? v.digest = none ∧ (v.isStarted || v.isCompleted) = true ∧ announce handler v (t, d) =
      carryOut handler (t.number v.digest) (.stepStarting (t.numbered.length + 1) v.name) d) ∨
    (t.step? v.digest = none ∧ (v.isStarted || v.isCompleted) = false ∧
      announce handler v (t, d) = (.ok (), (t, d))) ∨
    (∃ step, t.step? v.digest = some step ∧ v.isCompleted = false ∧ v.digest ∈ t.finished ∧
      announce handler v (t, d) =
        carryOut handler (t.reopen v.digest) (.stepStarting step v.name) d) ∨
    (∃ step, t.step? v.digest = some step ∧ (v.isCompleted = true ∨ v.digest ∉ t.finished) ∧
      announce handler v (t, d) = (.ok (), (t, d))) := by
  unfold announce
  rw [Action.bind_run]
  simp only [look, Action.view, id]
  cases hstep : t.step? v.digest with
  | none =>
    dsimp only
    cases hseen : v.isStarted || v.isCompleted with
    | true => exact .inl ⟨rfl, rfl, rfl⟩
    | false => exact .inr (.inl ⟨rfl, rfl, rfl⟩)
  | some step =>
    refine .inr (.inr ?_)
    dsimp only
    by_cases hagain : v.isCompleted = false ∧ v.digest ∈ t.finished
    · have hcond : (!v.isCompleted && t.finished.contains v.digest) = true := by simp [hagain]
      rw [if_pos hcond]
      exact .inl ⟨step, rfl, hagain.1, hagain.2, rfl⟩
    · have hcond : ¬ (!v.isCompleted && t.finished.contains v.digest) = true := by simpa using hagain
      rw [if_neg hcond]
      refine .inr ⟨step, rfl, ?_, rfl⟩
      by_cases hdone : v.isCompleted = true
      · exact .inl hdone
      · exact .inr fun hin => hagain ⟨by simpa using hdone, hin⟩

theorem traceStatus_cases (s : VertexStatus) (t : Tracer) (d : Delivery) :
    traceStatus handler s (t, d) =
      (.error (.contractViolation (.unknownVertex s.vertex)), (t, d)) ∨
    (∃ step, t.step? s.vertex = some step ∧ traceStatus handler s (t, d) = (.ok (), (t, d))) ∨
    (∃ step event, t.step? s.vertex = some step ∧ statusEvent? step s = some event ∧
      traceStatus handler s (t, d) = carryOut handler t event d) := by
  unfold traceStatus
  rw [Action.bind_run, findStep_run]
  cases hstep : t.step? s.vertex with
  | none => exact .inl rfl
  | some step =>
    simp only
    cases hevent : statusEvent? step s with
    | none => exact .inr (.inl ⟨step, rfl, rfl⟩)
    | some event => exact .inr (.inr ⟨step, event, rfl, hevent, rfl⟩)

theorem traceLog_cases (l : VertexLog) (t : Tracer) (d : Delivery) :
    traceLog handler l (t, d) =
      (.error (.contractViolation (.unknownVertex l.vertex)), (t, d)) ∨
    (∃ step, t.step? l.vertex = some step ∧
      traceLog handler l (t, d) = carryOut handler t (logEvent step l) d) := by
  unfold traceLog
  rw [Action.bind_run, findStep_run]
  cases hstep : t.step? l.vertex with
  | none => exact .inl rfl
  | some step => exact .inr ⟨step, rfl, rfl⟩

theorem conclude_cases (v : Vertex) (t : Tracer) (d : Delivery) :
    (v.error ≠ "" ∧ conclude handler v (t, d) = reportFailure handler v.error (t, d)) ∨
    (v.error = "" ∧ (v.isCompleted = false ∨ v.digest ∈ t.finished) ∧
      conclude handler v (t, d) = (.ok (), (t, d))) ∨
    (v.error = "" ∧ v.isCompleted = true ∧ v.digest ∉ t.finished ∧ t.step? v.digest = none ∧
      conclude handler v (t, d) =
        (.error (.contractViolation (.unknownVertex v.digest)), (t, d))) ∨
    (∃ step, v.error = "" ∧ v.isCompleted = true ∧ v.digest ∉ t.finished ∧
      t.step? v.digest = some step ∧ conclude handler v (t, d) =
        carryOut handler (t.finish v.digest) (.stepFinished step) d) := by
  unfold conclude
  by_cases herror : v.error = ""
  · refine .inr ?_
    simp only [herror, ne_eq, not_true_eq_false, if_false, true_and]
    rw [Action.bind_run]
    simp only [look, Action.view, id]
    by_cases hnew : v.isCompleted = true ∧ v.digest ∉ t.finished
    · obtain ⟨hdone, hnot⟩ := hnew
      refine .inr ?_
      simp only [hdone, hnot, List.contains_eq_mem, decide_false, Bool.not_false, Bool.and_self,
        if_true, not_false_eq_true, true_and]
      rw [Action.bind_run, findStep_run]
      cases hstep : t.step? v.digest with
      | none => exact .inl ⟨rfl, rfl⟩
      | some step => exact .inr ⟨step, rfl, rfl⟩
    · refine .inl ⟨?_, ?_⟩
      · by_cases hdone : v.isCompleted = true
        · exact .inr (by simpa [hdone] using hnew)
        · exact .inl (by simpa using hdone)
      · have hcond : (v.isCompleted && !t.finished.contains v.digest) = false := by
          simpa using hnew
        simp only [hcond]
        rfl
  · exact .inl ⟨herror, by simp [herror]⟩

/-- A batch in its four passes, unless its inputs have a cycle. -/
theorem trace_run (batch : Batch) (s : Tracer × Delivery) :
    trace handler batch s = match orderVertices batch.vertices with
      | .error e => (.error e, s)
      | .ok vertices =>
        (do
          Action.forEach (announce handler) vertices
          Action.forEach (traceStatus handler) batch.statuses
          Action.forEach (traceLog handler) batch.logs
          Action.forEach (conclude handler) vertices) s := by
  unfold trace
  rw [Action.bind_run]
  cases orderVertices batch.vertices <;> rfl

end Cases

theorem statusEvent?_progress {step : Nat} {s : VertexStatus} {event : Event}
    (h : statusEvent? step s = some event) :
    event.step? = some step ∧ event.kind ≠ .stepStarting ∧ event.kind ≠ .stepFinished := by
  unfold statusEvent? at h
  split at h
  · obtain rfl := Option.some.inj h
    exact ⟨rfl, nofun, nofun⟩
  · split at h
    · cases h
    · obtain rfl := Option.some.inj h
      exact ⟨rfl, nofun, nofun⟩

/-- The guard is asked to finish a step that has not started, at some moment after a state. -/
def Rejects (handler : Handler) (s : Tracer × Delivery) (step : Nat) : Prop :=
  ∃ t t' d, Reaches handler s (t, d) ∧ Move t t' (.stepFinished step) ∧ d.phase = .receiving ∧
    step ∉ d.started

theorem Rejects.after {s u : Tracer × Delivery} {step : Nat} (hpath : Reaches handler s u)
    (h : Rejects handler u step) : Rejects handler s step := by
  obtain ⟨t, t', d, hreach, hmove, hphase, hnot⟩ := h
  exact ⟨t, t', d, hpath.trans hreach, hmove, hphase, hnot⟩

/-- An action that goes along moves, and does not complain of an unstarted step unless the guard
does. -/
def Stepwise (handler : Handler) {α : Type} (act : Reporting Tracer α) : Prop :=
  ∀ s, Reaches handler s (act s).2 ∧ ∀ step,
    (act s).1 = .error (.contractViolation (.finishedBeforeStart step)) → Rejects handler s step

namespace Stepwise

theorem carryOut {t t' : Tracer} {event : Event} (h : Move t t' event) (d : Delivery) :
    Reaches handler (t, d) (carryOut handler t' event d).2 ∧ ∀ step,
      (Tracer.carryOut handler t' event d).1 =
        .error (.contractViolation (.finishedBeforeStart step)) → Rejects handler (t, d) step := by
  refine ⟨.single h d, ?_⟩
  intro step hrejected
  obtain ⟨hphase, rfl, hnot⟩ := Delivery.emit_error_finishedBeforeStart hrejected
  exact ⟨t, t', d, .refl, h, hphase, hnot⟩

theorem bind {α β : Type} {act : Reporting Tracer α} {next : α → Reporting Tracer β}
    (hact : Stepwise handler act) (hnext : ∀ a, Stepwise handler (next a)) :
    Stepwise handler (act >>= next) := by
  intro s
  obtain ⟨hreach, hreject⟩ := hact s
  rw [Action.bind_run]
  generalize act s = r at hreach hreject
  obtain ⟨_ | a, u⟩ := r
  · exact ⟨hreach, fun step heq => hreject step (by cases heq; rfl)⟩
  · obtain ⟨hreach', hreject'⟩ := hnext a u
    exact ⟨hreach.trans hreach', fun step heq => (hreject' step heq).after hreach⟩

theorem forEach {α : Type} {f : α → Reporting Tracer Unit} (hf : ∀ x, Stepwise handler (f x))
    (xs : List α) : Stepwise handler (Action.forEach f xs) := by
  induction xs with
  | nil => exact fun s => ⟨.refl, fun _ h => by cases h⟩
  | cons x xs ih => exact bind (hf x) fun _ => ih

theorem announce (v : Vertex) : Stepwise handler (announce handler v) := by
  rintro ⟨t, d⟩
  rcases announce_cases handler v t d with
    ⟨hnone, _, hrun⟩ | ⟨_, _, hrun⟩ | ⟨step, hstep, _, hin, hrun⟩ | ⟨_, _, _, hrun⟩
  · rw [hrun]
    exact carryOut (.start v.name hnone) d
  · rw [hrun]
    exact ⟨.refl, fun _ h => by cases h⟩
  · rw [hrun]
    exact carryOut (.restart v.name hstep hin) d
  · rw [hrun]
    exact ⟨.refl, fun _ h => by cases h⟩

theorem traceStatus (s : VertexStatus) : Stepwise handler (traceStatus handler s) := by
  rintro ⟨t, d⟩
  rcases traceStatus_cases handler s t d with
    hrun | ⟨_, _, hrun⟩ | ⟨step, event, hstep, hevent, hrun⟩
  · rw [hrun]
    exact ⟨.refl, fun _ h => by cases h⟩
  · rw [hrun]
    exact ⟨.refl, fun _ h => by cases h⟩
  · rw [hrun]
    obtain ⟨habout, hstarts, hfinishes⟩ := statusEvent?_progress hevent
    exact carryOut (.progress hstep habout hstarts hfinishes) d

theorem traceLog (l : VertexLog) : Stepwise handler (traceLog handler l) := by
  rintro ⟨t, d⟩
  rcases traceLog_cases handler l t d with hrun | ⟨step, hstep, hrun⟩
  · rw [hrun]
    exact ⟨.refl, fun _ h => by cases h⟩
  · rw [hrun]
    have hmove : Move t t (logEvent step l) :=
      .progress hstep rfl nofun nofun
    exact carryOut hmove d

theorem reportFailure (message : String) :
    Stepwise handler (BuildProgress.reportFailure handler message) := by
  apply bind
  · rintro ⟨t, d⟩
    exact carryOut (.fail message) d
  · exact fun _ s => ⟨.refl, fun _ h => by cases h⟩

theorem conclude (v : Vertex) : Stepwise handler (conclude handler v) := by
  rintro ⟨t, d⟩
  rcases conclude_cases handler v t d with
    ⟨_, hrun⟩ | ⟨_, _, hrun⟩ | ⟨_, _, _, _, hrun⟩ | ⟨step, _, _, hnot, hstep, hrun⟩
  · rw [hrun]
    exact reportFailure v.error (t, d)
  · rw [hrun]
    exact ⟨.refl, fun _ h => by cases h⟩
  · rw [hrun]
    exact ⟨.refl, fun _ h => by cases h⟩
  · rw [hrun]
    exact carryOut (.finish hstep hnot) d

theorem ordering (vertices : List Vertex) :
    Stepwise handler (Action.ofExcept (orderVertices vertices)) := by
  intro s
  refine ⟨.refl, fun step heq => ?_⟩
  obtain ⟨digests, hcycle⟩ := orderVertices_error heq
  cases hcycle

theorem trace (batch : Batch) : Stepwise handler (trace handler batch) :=
  (ordering batch.vertices).bind fun vertices =>
    (forEach announce vertices).bind fun _ =>
      (forEach traceStatus batch.statuses).bind fun _ =>
        (forEach traceLog batch.logs).bind fun _ => forEach conclude vertices

end Stepwise

/-- A sequence of batches is a path of moves from the start of the build. -/
theorem reaches_after (handler : Handler) (batches : List Batch) :
    Reaches handler ({}, {}) (after handler batches) := by
  induction batches using List.reverseRecOn with
  | nil => exact .refl
  | append_singleton batches batch ih =>
    rw [after_concat]
    exact ih.trans (Stepwise.trace batch _).1

end BuildProgress.Tracer
