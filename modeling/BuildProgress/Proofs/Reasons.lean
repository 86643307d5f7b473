import BuildProgress.Legacy.Parser
import BuildProgress.Proofs.Tracer.Trace

/-!
# Why failures are told

Whatever the handler answers, a failure of the build is told only for a reason that is in the message
at hand: the error that the message reports, or that of a record in its batch.
-/

namespace BuildProgress

set_option autoImplicit false

section Reasons

variable {σ α β : Type} {handler : Handler} {reason : String → Prop}

/-- The failures that an action tells all have a reason. -/
def FailsFor (reason : String → Prop) (act : Reporting σ α) : Prop :=
  ∀ s, ∃ more, (act s).2.2.history = s.2.history ++ more ∧
    ∀ message, .buildFailed message ∈ more → reason message

namespace FailsFor

theorem silent {act : Reporting σ α} (h : ∀ s, (act s).2.2 = s.2) : FailsFor reason act :=
  fun s => ⟨[], by rw [h, List.append_nil], nofun⟩

theorem report {event : Event} (h : ∀ message, event = .buildFailed message → reason message) :
    FailsFor reason (report handler event : Reporting σ Unit) := by
  intro s
  by_cases hdelivers : s.2.Delivers event
  · refine ⟨[event], Delivery.emit_history hdelivers, fun message hin => ?_⟩
    exact h message (List.mem_singleton.mp hin).symm
  · refine ⟨[], ?_, nofun⟩
    have hsame : (Delivery.emit handler event s.2).2 = s.2 := Delivery.emit_of_not_delivers hdelivers
    rw [List.append_nil]
    exact congrArg (·.history) hsame

theorem bind {act : Reporting σ α} {next : α → Reporting σ β} (h : FailsFor reason act)
    (hnext : ∀ a s, (act s).1 = .ok a → FailsFor reason (next a)) : FailsFor reason (act >>= next) := by
  intro s
  obtain ⟨first, hfirst, hreason⟩ := h s
  rcases hrun : act s with ⟨e | a, t⟩
  · rw [Action.bind_run_error hrun]
    rw [hrun] at hfirst
    exact ⟨first, hfirst, hreason⟩
  · rw [Action.bind_run_ok hrun]
    rw [hrun] at hfirst
    obtain ⟨rest, hrest, hreason'⟩ := hnext a s (by rw [hrun]) t
    refine ⟨first ++ rest, by rw [hrest, hfirst, List.append_assoc], fun message hin => ?_⟩
    exact (List.mem_append.mp hin).elim (hreason message) (hreason' message)

theorem whenever {c : Prop} [Decidable c] {act : Reporting σ Unit} {next : Unit → Reporting σ β}
    (h : FailsFor reason act) (hnext : FailsFor reason (next ())) :
    FailsFor reason (if c then act >>= next else next ()) := by
  split
  · exact h.bind fun _ _ _ => hnext
  · exact hnext

theorem forEach {f : α → Reporting σ Unit} {xs : List α} (h : ∀ x ∈ xs, FailsFor reason (f x)) :
    FailsFor reason (Action.forEach f xs) := by
  induction xs with
  | nil => exact silent fun _ => rfl
  | cons x xs ih =>
    apply bind (h x List.mem_cons_self)
    exact fun _ _ _ => ih fun y hy => h y (List.mem_cons_of_mem x hy)

theorem reportFailure {message : String} (h : reason message) :
    FailsFor reason (reportFailure handler message : Reporting σ Unit) := by
  apply bind (report _)
  · exact fun _ _ _ => silent fun _ => rfl
  · rintro _ ⟨⟩
    exact h

end FailsFor

end Reasons

namespace Tracer

variable {handler : Handler} {reason : String → Prop}

theorem announce_failsFor (v : Vertex) : FailsFor reason (announce handler v) := by
  unfold announce
  apply FailsFor.bind (.silent fun _ => rfl)
  intro t _ _
  split
  · split
    · exact .bind (.silent fun _ => rfl) fun _ _ _ => .report nofun
    · exact .silent fun _ => rfl
  · split
    · exact .bind (.silent fun _ => rfl) fun _ _ _ => .report nofun
    · exact .silent fun _ => rfl

theorem findStep_failsFor (digest : String) : FailsFor reason (findStep digest) := by
  unfold findStep
  exact .bind (.silent fun _ => rfl) fun _ _ _ => .silent fun _ => rfl

theorem traceStatus_failsFor (c : VertexStatus) : FailsFor reason (traceStatus handler c) := by
  unfold traceStatus
  apply FailsFor.bind (findStep_failsFor c.vertex)
  intro step _ _
  cases hevent : statusEvent? step c with
  | none => exact .silent fun _ => rfl
  | some event =>
    obtain ⟨about, _⟩ := statusEvent?_progress hevent
    apply FailsFor.report
    rintro message rfl
    cases about

theorem traceLog_failsFor (l : VertexLog) : FailsFor reason (traceLog handler l) := by
  unfold traceLog
  exact .bind (findStep_failsFor l.vertex) fun _ _ _ => .report nofun

theorem conclude_failsFor (v : Vertex) (h : v.error ≠ "" → reason v.error) :
    FailsFor reason (conclude handler v) := by
  unfold conclude
  split
  · exact .reportFailure (h ‹_›)
  · apply FailsFor.bind (.silent fun _ => rfl)
    intro t _ _
    split
    · apply FailsFor.bind (findStep_failsFor v.digest)
      exact fun _ _ _ => .bind (.silent fun _ => rfl) fun _ _ _ => .report nofun
    · exact .silent fun _ => rfl

/-- A batch fails with the error of one of its records. -/
theorem trace_failsFor (handler : Handler) (batch : Batch) :
    FailsFor (fun message => message ≠ "" ∧ ∃ v ∈ batch.vertices, v.error = message)
      (trace handler batch) := by
  unfold trace
  apply FailsFor.bind (.silent fun _ => rfl)
  intro ordered _ hordered
  have hmem {v : Vertex} (hv : v ∈ ordered) : v ∈ batch.vertices :=
    (orderVertices_perm hordered).subset hv
  apply FailsFor.bind (.forEach fun v _ => announce_failsFor v)
  intro _ _ _
  apply FailsFor.bind (.forEach fun c _ => traceStatus_failsFor c)
  intro _ _ _
  apply FailsFor.bind (.forEach fun l _ => traceLog_failsFor l)
  intro _ _ _
  exact .forEach fun v hv => conclude_failsFor v fun herror => ⟨herror, v, hmem hv, rfl⟩

end Tracer

namespace Legacy.Parser

variable {handler : Handler} {reason : String → Prop}

theorem closeStep_failsFor : FailsFor reason (closeStep handler) := by
  unfold closeStep
  apply FailsFor.bind (.silent fun _ => rfl)
  intro step _ _
  split
  · exact .report nofun
  · exact .silent fun _ => rfl

theorem openStep_failsFor (line : StepLine) : FailsFor reason (openStep handler line) := by
  unfold openStep
  split
  · exact .silent fun _ => rfl
  · apply FailsFor.bind closeStep_failsFor
    exact fun _ _ _ => .bind (.silent fun _ => rfl) fun _ _ _ => .report nofun

theorem onText_failsFor (text : String) : FailsFor reason (onText handler text) := by
  unfold onText
  split
  · exact openStep_failsFor _
  · apply FailsFor.bind (.silent fun _ => rfl)
    intro p _ _
    split
    · exact .silent fun _ => rfl
    · exact .bind (.silent fun _ => rfl) fun _ _ _ => .report nofun

theorem onProgress_failsFor (m : Message) : FailsFor reason (onProgress handler m) := by
  unfold onProgress
  apply FailsFor.bind (.silent fun _ => rfl)
  intro p _ _
  dsimp only
  split
  · exact .report nofun
  · exact .report nofun

/-- A message fails with the error that it reports. -/
theorem onMessage_failsFor (handler : Handler) (m : Message) :
    FailsFor (fun message => m.failure? = some message) (onMessage handler m) := by
  unfold onMessage
  dsimp only
  apply FailsFor.whenever (onText_failsFor m.stream)
  apply FailsFor.whenever (onProgress_failsFor m)
  cases m.failure? with
  | some message => exact .reportFailure rfl
  | none =>
    dsimp only
    split <;> exact .silent fun _ => rfl

theorem onUpload_failsFor (bytes : Int) : FailsFor reason (onUpload handler bytes) := by
  unfold onUpload
  exact .bind (.silent fun _ => rfl) fun _ _ _ => .report nofun

end Legacy.Parser

end BuildProgress
