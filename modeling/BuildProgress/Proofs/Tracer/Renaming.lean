import BuildProgress.Proofs.Graph.Renaming
import BuildProgress.Proofs.Tracer.Trace

/-!
# Digests are opaque

Nothing that the tracer does depends on what a digest says: it finds digests, adds and removes them,
and hands them on in errors. So a run whose digests are renamed one to one goes the same way, tells
the same events, and fails at the same calls.
-/

namespace BuildProgress

set_option autoImplicit false

namespace Tracer

def rename (f : String → String) (t : Tracer) : Tracer where
  numbered := t.numbered.map f
  finished := t.finished.map f

variable {f : String → String} {α β : Type} {handler : Handler}

def renameState (f : String → String) (s : Tracer × Delivery) : Tracer × Delivery :=
  (s.1.rename f, s.2)

def renameResult (f : String → String) (r : Except BuildError α × (Tracer × Delivery)) :
    Except BuildError α × (Tracer × Delivery) :=
  (r.1.mapError (BuildError.rename f), renameState f r.2)

section Tables

variable (hf : Function.Injective f)
include hf

theorem idxOf?_rename (digests : List String) (digest : String) :
    (digests.map f).idxOf? (f digest) = digests.idxOf? digest := by
  induction digests with
  | nil => rfl
  | cons first rest ih =>
    have hbeq : (f first == f digest) = (first == digest) := by
      rw [Bool.eq_iff_iff, beq_iff_eq, beq_iff_eq]
      exact hf.eq_iff
    rw [List.map_cons, List.idxOf?_cons, List.idxOf?_cons, hbeq, ih]

theorem step?_rename (t : Tracer) (digest : String) :
    (t.rename f).step? (f digest) = t.step? digest :=
  congrArg (Option.map (· + 1)) (idxOf?_rename hf t.numbered digest)

theorem contains_rename (digests : List String) (digest : String) :
    (digests.map f).contains (f digest) = digests.contains digest := by
  rw [Bool.eq_iff_iff, List.contains_iff_mem, List.contains_iff_mem]
  exact List.mem_map_of_injective hf

theorem reopen_rename (t : Tracer) (digest : String) :
    (t.rename f).reopen (f digest) = (t.reopen digest).rename f := by
  have hne : (fun d => f d != f digest) = fun d => d != digest := by
    funext d
    rw [bne, bne, Bool.not_inj_iff, Bool.eq_iff_iff, beq_iff_eq, beq_iff_eq]
    exact hf.eq_iff
  simp only [reopen, rename, List.filter_map, Function.comp_def, hne]

end Tables

theorem number_rename (t : Tracer) (digest : String) :
    (t.rename f).number (f digest) = (t.number digest).rename f := by
  simp [number, rename]

theorem finish_rename (t : Tracer) (digest : String) :
    (t.rename f).finish (f digest) = (t.finish digest).rename f := by
  simp [finish, rename]

/-- Started from the renamed state, the second action does what the first does, but for the names of
digests. -/
def Renamed (f : String → String) (act act' : Reporting Tracer α) : Prop :=
  ∀ s, act' (renameState f s) = renameResult f (act s)

namespace Renamed

theorem bind {act act' : Reporting Tracer α} {next next' : α → Reporting Tracer β}
    (hact : Renamed f act act') (hnext : ∀ a, Renamed f (next a) (next' a)) :
    Renamed f (act >>= next) (act' >>= next') := by
  intro s
  rw [Action.bind_run, Action.bind_run, hact s]
  rcases act s with ⟨e | a, u⟩
  · rfl
  · exact hnext a u

theorem pure (a : α) : Renamed f (pure a) (pure a) :=
  fun _ => rfl

theorem fail (e : BuildError) : Renamed f (Action.fail e : Reporting Tracer α)
    (Action.fail (e.rename f)) :=
  fun _ => rfl

theorem change {g g' : Tracer → Tracer} (h : ∀ t, g' (t.rename f) = (g t).rename f) :
    Renamed f (change g) (change g') := by
  intro s
  simp only [BuildProgress.change, Action.update, renameState, h, renameResult]
  rfl

/-- An action that looks at the state first. -/
theorem look {next next' : Tracer → Reporting Tracer α}
    (h : ∀ t d, next' (t.rename f) (t.rename f, d) = renameResult f (next t (t, d))) :
    Renamed f (look id >>= next) (BuildProgress.look id >>= next') := by
  intro s
  exact h s.1 s.2

theorem forEach {γ : Type} {act act' : γ → Reporting Tracer Unit} {g : γ → γ}
    (h : ∀ x, Renamed f (act x) (act' (g x))) (xs : List γ) :
    Renamed f (Action.forEach act xs) (Action.forEach act' (xs.map g)) := by
  induction xs with
  | nil => exact pure ()
  | cons x xs ih => exact (h x).bind fun _ => ih

/-- The guard names no digest. -/
theorem report (handler : Handler) (event : Event) :
    Renamed f (report handler event) (BuildProgress.report handler event) := by
  have hsame : ∀ d, ((Delivery.emit handler event d).1).mapError (BuildError.rename f) =
      (Delivery.emit handler event d).1 := by
    intro d
    by_cases hdelivers : d.Delivers event
    · rw [Delivery.emit_of_delivers hdelivers, Delivery.handOver]
      dsimp only
      split <;> rfl
    · cases hphase : d.phase with
      | receiving =>
        obtain ⟨step, rfl, hnot⟩ := Delivery.finishesUnstarted_of_not_delivers hphase hdelivers
        simp [Delivery.emit, hphase, hnot, Except.mapError, BuildError.rename, ContractFault.rename]
      | aborted => simp [Delivery.emit, hphase, Except.mapError, BuildError.rename]
      | terminated => simp [Delivery.emit, hphase, Except.mapError]
  intro s
  have hrun : BuildProgress.report handler event (renameState f s) =
      ((Delivery.emit handler event s.2).1, s.1.rename f, (Delivery.emit handler event s.2).2) := rfl
  rw [hrun, ← hsame s.2]
  rfl

theorem reportFailure (handler : Handler) (message : String) :
    Renamed f (reportFailure handler message) (BuildProgress.reportFailure handler message) :=
  (report handler _).bind fun _ => fail (.buildFailed message)

section Passes

variable (hf : Function.Injective f) (handler)
include hf

theorem findStep (digest : String) : Renamed f (findStep digest) (Tracer.findStep (f digest)) := by
  intro s
  obtain ⟨t, d⟩ := s
  rw [renameState, findStep_run, findStep_run, step?_rename hf]
  cases t.step? digest <;> rfl

theorem announce (v : Vertex) : Renamed f (announce handler v) (Tracer.announce handler (v.rename f)) := by
  apply look
  intro t d
  have hstep : (t.rename f).step? (v.rename f).digest = t.step? v.digest := step?_rename hf t v.digest
  have hfinished : (t.rename f).finished.contains (v.rename f).digest =
      t.finished.contains v.digest := contains_rename hf t.finished v.digest
  have hlength : (t.rename f).numbered.length = t.numbered.length := List.length_map _
  have hseen : (v.rename f).isStarted = v.isStarted ∧ (v.rename f).isCompleted = v.isCompleted :=
    ⟨rfl, rfl⟩
  rw [hstep, hfinished, hlength, hseen.1, hseen.2]
  cases t.step? v.digest with
  | none =>
    dsimp only
    split
    · have hnumber : Renamed f (BuildProgress.change (·.number v.digest))
          (BuildProgress.change (·.number (v.rename f).digest)) :=
        change fun t => number_rename t v.digest
      exact (hnumber.bind fun _ => report handler _) (t, d)
    · rfl
  | some step =>
    dsimp only
    split
    · exact ((change fun t => reopen_rename hf t v.digest).bind fun _ => report handler _) (t, d)
    · rfl

theorem traceStatus (s : VertexStatus) :
    Renamed f (traceStatus handler s) (Tracer.traceStatus handler (s.rename f)) := by
  apply (findStep hf s.vertex).bind
  intro step
  have hevent : statusEvent? step (s.rename f) = statusEvent? step s := rfl
  rw [hevent]
  cases statusEvent? step s with
  | none => exact pure ()
  | some event => exact report handler event

theorem traceLog (l : VertexLog) :
    Renamed f (traceLog handler l) (Tracer.traceLog handler (l.rename f)) :=
  (findStep hf l.vertex).bind fun step => report handler (logEvent step l)

theorem conclude (v : Vertex) : Renamed f (conclude handler v) (Tracer.conclude handler (v.rename f)) := by
  unfold Tracer.conclude
  have herror : (v.rename f).error = v.error := rfl
  rw [herror]
  split
  · exact reportFailure handler v.error
  · apply look
    intro t d
    have hfinished : (t.rename f).finished.contains (v.rename f).digest =
        t.finished.contains v.digest := contains_rename hf t.finished v.digest
    have hcompleted : (v.rename f).isCompleted = v.isCompleted := rfl
    rw [hfinished, hcompleted]
    split
    · have hfinish : Renamed f (BuildProgress.change (·.finish v.digest))
          (BuildProgress.change (·.finish (v.rename f).digest)) :=
        change fun t => finish_rename t v.digest
      exact ((findStep hf v.digest).bind fun step => hfinish.bind fun _ => report handler _) (t, d)
    · rfl

/-- A batch goes through the same passes. -/
theorem trace (batch : Batch) :
    Renamed f (trace handler batch) (Tracer.trace handler (batch.rename f)) := by
  intro s
  have horder : orderVertices (batch.rename f).vertices = _ :=
    orderVertices_rename hf batch.vertices
  rw [trace_run, trace_run, horder]
  cases orderVertices batch.vertices with
  | error e => rfl
  | ok vertices =>
    exact ((forEach (announce handler hf) vertices).bind fun _ =>
      (forEach (traceStatus handler hf) batch.statuses).bind fun _ =>
        (forEach (traceLog handler hf) batch.logs).bind fun _ =>
          forEach (conclude handler hf) vertices) s

end Passes

end Renamed

theorem after_rename (hf : Function.Injective f) (handler : Handler) (batches : List Batch) :
    after handler (batches.map (Batch.rename f)) = renameState f (after handler batches) := by
  induction batches using List.reverseRecOn with
  | nil => rfl
  | append_singleton batches batch ih =>
    rw [List.map_append, List.map_singleton, after_concat, after_concat, ih,
      Renamed.trace handler hf batch]
    rfl

/-- Renaming digests one to one changes nothing but their names: the handler is told the same events,
the same calls fail in the same way, the renamed digests have the same numbers, and a batch comes in
the order of the same indices. -/
theorem digests_opaque {f : String → String} (hf : Function.Injective f) (handler : Handler)
    (batches : List Batch) :
    let now := after handler batches
    let renamed := after handler (batches.map (Batch.rename f))
    renamed.2 = now.2 ∧
    (∀ digest step, renamed.1.step? digest = some step ↔
      ∃ original, f original = digest ∧ now.1.step? original = some step) ∧
    (∀ batch, (trace handler (batch.rename f) renamed).1 =
      (trace handler batch now).1.mapError (BuildError.rename f)) ∧
    ∀ vertices, (orderEntries (vertices.map (Vertex.rename f))).map (List.map Entry.index) =
      ((orderEntries vertices).map (List.map Entry.index)).mapError (BuildError.rename f) := by
  intro now renamed
  have hafter : renamed = renameState f now := after_rename hf handler batches
  rw [hafter]
  refine ⟨rfl, ?_, ?_, orderEntries_rename_index hf⟩
  · intro digest step
    constructor
    · intro hstep
      obtain ⟨hin, _⟩ := step?_eq_some_iff.mp hstep
      obtain ⟨original, _, rfl⟩ := List.mem_map.mp hin
      exact ⟨original, rfl, (step?_rename hf now.1 original).symm.trans hstep⟩
    · intro hstep
      obtain ⟨original, rfl, hstep⟩ := hstep
      exact (step?_rename hf now.1 original).trans hstep
  · intro batch
    exact congrArg Prod.fst (Renamed.trace handler hf batch now)

/-- A vertex that needs another is numbered after it under any names, and a log of a vertex that is
not known fails. -/
theorem digests_opaque_prefixed :
    let named (digest : String) := "sha256:" ++ digest
    let batches : List Batch := [{ vertices := [
      { digest := "d", inputs := ["e"], name := "later", started := some ⟨1, 0⟩ },
      { digest := "e", name := "earlier", started := some ⟨1, 0⟩ }] }]
    let renamed := after .quiet (batches.map (Batch.rename named))
    renamed.2.history = [.stepStarting 1 "earlier", .stepStarting 2 "later"] ∧
      renamed.1.step? "sha256:d" = some 2 ∧
      (trace .quiet { logs := [{ vertex := "sha256:x" }] } renamed).1 =
        .error (.contractViolation (.unknownVertex "sha256:x")) := by
  intro named batches renamed
  have hnamed : Function.Injective named := fun _ _ h => String.append_right_inj _ |>.mp h
  obtain ⟨htold, hsteps, hfails, _⟩ := digests_opaque hnamed .quiet batches
  refine ⟨?_, (hsteps _ _).mpr ⟨"d", rfl, by decide⟩, ?_⟩
  · rw [htold]
    decide +kernel
  · have hlog : Batch.rename named { logs := [{ vertex := "x" }] } =
        { logs := [{ vertex := "sha256:x" }] } := by decide
    rw [← hlog, hfails]
    decide +kernel

end Tracer

end BuildProgress
