import BuildProgress.Proofs.Replay
import BuildProgress.Proofs.Tracer.Lifecycle

/-!
# Restarts of vertices

As long as all calls succeed, what is told of the step of a digest depends on the records of that
digest alone: a batch reads them in its two passes, and each pass is `Turn.opened` or `Turn.closed`
for one record after the other. So a run tells what the records say one by one exactly if each batch
is in step with what was told before it.
-/

namespace BuildProgress

set_option autoImplicit false

namespace Tracer

variable {handler : Handler} {digest other : String} {t t' : Tracer} {d d' : Delivery}
  {s : Tracer × Delivery} {event : Event} {step : Nat}

/-- What was told of the step of a digest. -/
def told (digest : String) (s : Tracer × Delivery) : List Turn :=
  match s.1.step? digest with
  | some step => turns step s.2.history
  | none => []

def processed (batch : Batch) : List Vertex :=
  match orderVertices batch.vertices with
  | .ok vertices => vertices
  | .error _ => []

/-- The records of a digest in the order in which they are processed. -/
def recordsOf (digest : String) (batches : List Batch) : List Vertex :=
  (batches.flatMap processed).filter (·.digest = digest)

/-- Every batch is translated without an error. -/
def Accepted (handler : Handler) (batches : List Batch) : Prop :=
  ∀ earlier batch, earlier ++ [batch] <+: batches →
    (trace handler batch (after handler earlier)).1 = .ok ()

/-- Delivery is open, and what was told agrees with what is known. -/
structure Running (s : Tracer × Delivery) : Prop where
  receiving : s.2.phase = .receiving
  live : Live s.1 s.2.history

theorem told_of_some (h : t.step? digest = some step) :
    told digest (t, d) = turns step d.history := by
  simp [told, h]

theorem told_of_none (h : t.step? digest = none) : told digest (t, d) = [] := by
  simp [told, h]

theorem told_self {turn : Turn} (hhistory : d'.history = d.history ++ [event])
    (turned : event.turn? step = some turn) (known : t'.step? digest = some step)
    (before : told digest (t, d) = turns step d.history) :
    told digest (t', d') = told digest (t, d) ++ [turn] := by
  rw [told_of_some known, before, hhistory, turns_concat_of_some turned]

theorem told_other (hhistory : d'.history = d.history ++ [event])
    (unturned : ∀ n ≠ step, event.turn? n = none) (known : t'.step? digest = some step)
    (hother : other ≠ digest) (hsame : t'.step? other = t.step? other) :
    told other (t', d') = told other (t, d) := by
  cases hn : t.step? other with
  | none => rw [told_of_none hn, told_of_none (hsame.trans hn)]
  | some n =>
    have hn' := hsame.trans hn
    have hne : n ≠ step := fun heq => hother (step?_inj (heq ▸ hn') known)
    rw [told_of_some hn, told_of_some hn', hhistory, turns_concat_of_none (unturned n hne)]

theorem told_silent (hhistory : d'.history = d.history ++ [event])
    (unturned : ∀ n, event.turn? n = none) (digest : String) :
    told digest (t, d') = told digest (t, d) := by
  cases hn : t.step? digest with
  | none => rw [told_of_none hn, told_of_none hn]
  | some n =>
    rw [told_of_some hn, told_of_some hn, hhistory, turns_concat_of_none (unturned n)]

/-- Between two states, one record of a vertex is read. -/
def Heard (read : List Turn → Vertex → List Turn) (v : Vertex) (s u : Tracer × Delivery) : Prop :=
  ∀ digest, told digest u = if v.digest = digest then read (told digest s) v else told digest s

theorem heard {read : List Turn → Vertex → List Turn} {v : Vertex} {s u : Tracer × Delivery}
    (hself : told v.digest u = read (told v.digest s) v)
    (hothers : ∀ other ≠ v.digest, told other u = told other s) : Heard read v s u := by
  intro digest
  by_cases hdigest : v.digest = digest
  · subst hdigest
    rw [if_pos rfl, hself]
  · rw [if_neg hdigest]
    exact hothers digest (Ne.symm hdigest)

namespace Running

theorem getLast?_told (h : Running (t, d)) (known : t.step? digest = some step) :
    (told digest (t, d)).getLast?.map Turn.mark = some (t.lastMark digest) := by
  rw [told_of_some known, ← List.getLast?_map]
  exact h.live.last digest step known

theorem told_finished (h : Running (t, d)) (known : t.step? digest = some step)
    (done : digest ∈ t.finished) : (told digest (t, d)).getLast? = some .finish := by
  have hlast := h.getLast?_told known
  rw [lastMark_of_mem done] at hlast
  obtain ⟨turn, hturn, hmark⟩ := Option.map_eq_some_iff.mp hlast
  cases turn with
  | start _ => cases hmark
  | finish => exact hturn

theorem told_open (h : Running (t, d)) (known : t.step? digest = some step)
    (undone : digest ∉ t.finished) : ∃ name, (told digest (t, d)).getLast? = some (.start name) := by
  have hlast := h.getLast?_told known
  rw [lastMark_of_not_mem undone] at hlast
  obtain ⟨turn, hturn, hmark⟩ := Option.map_eq_some_iff.mp hlast
  cases turn with
  | start name => exact ⟨name, hturn⟩
  | finish => cases hmark

theorem carryOut (h : Running (t, d)) (hmove : Move t t' event) (hfailure : event.isFailure = false)
    (hok : (carryOut handler t' event d).1 = .ok ()) :
    Running (carryOut handler t' event d).2 ∧
      (Tracer.carryOut handler t' event d).2.2.history = d.history ++ [event] := by
  have hdelivers := Delivery.delivers_of_ok h.receiving hok
  have hhistory : (Delivery.emit handler event d).2.history = d.history ++ [event] :=
    Delivery.emit_history hdelivers
  refine ⟨⟨Delivery.emit_phase_of_ok hdelivers hok hfailure, ?_⟩, hhistory⟩
  simp only [Tracer.carryOut, hhistory]
  exact h.live.move hmove

theorem announce (h : Running s) (v : Vertex) (hok : (announce handler v s).1 = .ok ()) :
    Running (announce handler v s).2 ∧ Heard Turn.opened v s (Tracer.announce handler v s).2 := by
  obtain ⟨t, d⟩ := s
  rcases announce_cases handler v t d with ⟨hnone, hseen, hrun⟩ | ⟨hnone, hunseen, hrun⟩ |
    ⟨step, hstep, hrunning, hin, hrun⟩ | ⟨step, hstep, hopen, hrun⟩
  · rw [hrun] at hok ⊢
    obtain ⟨hafter, hhistory⟩ := h.carryOut (.start v.name hnone) rfl hok
    have known := step?_number_self hnone
    have hfresh := h.live.fresh _ (Nat.lt_succ_self t.numbered.length)
    have htold : told v.digest (t, d) = [] := told_of_none hnone
    refine ⟨hafter, heard ?_ fun other hother => ?_⟩
    · refine (told_self hhistory (Event.turn?_start _ _) known (htold.trans hfresh.symm)).trans ?_
      simp [htold, Turn.opened, hseen]
    · have hsame := step?_number_of_ne (t := t) hother
      exact told_other hhistory (fun _ => Event.turn?_start_of_ne _) known hother hsame
  · rw [hrun]
    have htold : told v.digest (t, d) = [] := told_of_none hnone
    refine ⟨h, heard ?_ fun _ _ => rfl⟩
    simp [htold, Turn.opened, hunseen]
  · rw [hrun] at hok ⊢
    obtain ⟨hafter, hhistory⟩ := h.carryOut (.restart v.name hstep hin) rfl hok
    have known : (t.reopen v.digest).step? v.digest = some step := hstep
    refine ⟨hafter, heard ?_ fun other hother => ?_⟩
    · refine (told_self hhistory (Event.turn?_start _ _) known (told_of_some hstep)).trans ?_
      simp [Turn.opened_of_finish (h.told_finished hstep hin), hrunning]
    · exact told_other hhistory (fun _ => Event.turn?_start_of_ne _) known hother rfl
  · rw [hrun]
    refine ⟨h, heard ?_ fun _ _ => rfl⟩
    by_cases hin : v.digest ∈ t.finished
    · have hcompleted : v.isCompleted = true := hopen.resolve_right fun hnot => hnot hin
      rw [Turn.opened_of_finish (h.told_finished hstep hin), if_pos hcompleted]
    · obtain ⟨name, hlast⟩ := h.told_open hstep hin
      rw [Turn.opened_of_start hlast]

theorem traceStatus (h : Running s) (c : VertexStatus) (hok : (traceStatus handler c s).1 = .ok ()) :
    Running (traceStatus handler c s).2 ∧
      ∀ digest, told digest (Tracer.traceStatus handler c s).2 = told digest s := by
  obtain ⟨t, d⟩ := s
  rcases traceStatus_cases handler c t d with hrun | ⟨_, _, hrun⟩ | ⟨step, event, hstep, hevent, hrun⟩
  · rw [hrun] at hok
    cases hok
  · rw [hrun]
    exact ⟨h, fun _ => rfl⟩
  · rw [hrun] at hok ⊢
    obtain ⟨habout, hstarts, hfinishes⟩ := statusEvent?_progress hevent
    have hfailure : event.isFailure = false := by
      cases event <;> first | rfl | cases habout
    obtain ⟨hafter, hhistory⟩ := h.carryOut (.progress hstep habout hstarts hfinishes) hfailure hok
    exact ⟨hafter, told_silent hhistory fun _ => Event.turn?_eq_none hstarts hfinishes⟩

theorem traceLog (h : Running s) (l : VertexLog) (hok : (traceLog handler l s).1 = .ok ()) :
    Running (traceLog handler l s).2 ∧
      ∀ digest, told digest (Tracer.traceLog handler l s).2 = told digest s := by
  obtain ⟨t, d⟩ := s
  rcases traceLog_cases handler l t d with hrun | ⟨step, hstep, hrun⟩
  · rw [hrun] at hok
    cases hok
  · rw [hrun] at hok ⊢
    have hmove : Move t t (logEvent step l) := .progress hstep rfl nofun nofun
    obtain ⟨hafter, hhistory⟩ := h.carryOut hmove rfl hok
    exact ⟨hafter, told_silent hhistory fun _ => rfl⟩

theorem conclude (h : Running s) (v : Vertex) (hok : (conclude handler v s).1 = .ok ()) :
    Running (conclude handler v s).2 ∧ Heard Turn.closed v s (Tracer.conclude handler v s).2 := by
  obtain ⟨t, d⟩ := s
  rcases conclude_cases handler v t d with
    ⟨_, hrun⟩ | ⟨_, hdone, hrun⟩ | ⟨_, _, _, _, hrun⟩ | ⟨step, _, hcompleted, hnot, hstep, hrun⟩
  · rw [hrun] at hok
    obtain ⟨_, _, _, hfail, _⟩ := Action.exists_of_bind_ok hok
    cases hfail
  · rw [hrun]
    refine ⟨h, heard ?_ fun _ _ => rfl⟩
    rcases hdone with hrunning | hin
    · exact (Turn.closed_of_running hrunning).symm
    · have hnumbered := h.live.finished_numbered v.digest hin
      have hstep : t.step? v.digest = some (t.numbered.idxOf v.digest + 1) :=
        step?_eq_some_iff.mpr ⟨hnumbered, rfl⟩
      exact (Turn.closed_of_finish (h.told_finished hstep hin)).symm
  · rw [hrun] at hok
    cases hok
  · rw [hrun] at hok ⊢
    obtain ⟨hafter, hhistory⟩ := h.carryOut (.finish hstep hnot) rfl hok
    have known : (t.finish v.digest).step? v.digest = some step := hstep
    refine ⟨hafter, heard ?_ fun other hother => ?_⟩
    · obtain ⟨name, hlast⟩ := h.told_open hstep hnot
      refine (told_self hhistory (Event.turn?_finish _) known (told_of_some hstep)).trans ?_
      rw [Turn.closed_of_start hlast, if_pos hcompleted]
    · exact told_other hhistory (fun _ => Event.turn?_finish_of_ne) known hother rfl

theorem pass {read : List Turn → Vertex → List Turn} {act : Vertex → Reporting Tracer Unit}
    (hact : ∀ v s, Running s → (act v s).1 = .ok () →
      Running (act v s).2 ∧ Heard read v s (act v s).2) (vertices : List Vertex) (digest : String) :
    ∀ s, Running s → (Action.forEach act vertices s).1 = .ok () →
      Running (Action.forEach act vertices s).2 ∧ told digest (Action.forEach act vertices s).2 =
        (vertices.filter (·.digest = digest)).foldl read (told digest s) := by
  have hfilter (turns : List Turn) : (vertices.filter (·.digest = digest)).foldl read turns =
      vertices.foldl (fun turns v => if v.digest = digest then read turns v else turns) turns := by
    simp [List.foldl_filter]
  intro s hs hok
  rw [hfilter]
  apply Action.forEach_ok _ vertices s hs hok
  intro v s hs hok
  obtain ⟨hafter, hheard⟩ := hact v s hs hok
  exact ⟨hafter, hheard digest⟩

theorem silentPass {α : Type} {act : α → Reporting Tracer Unit}
    (hact : ∀ x s, Running s → (act x s).1 = .ok () →
      Running (act x s).2 ∧ ∀ digest, told digest (act x s).2 = told digest s) (xs : List α)
    (digest : String) : ∀ s, Running s → (Action.forEach act xs s).1 = .ok () →
      Running (Action.forEach act xs s).2 ∧
        told digest (Action.forEach act xs s).2 = told digest s := by
  intro s hs hok
  have hrun : Running (Action.forEach act xs s).2 ∧ told digest (Action.forEach act xs s).2 =
      xs.foldl (fun turns _ => turns) (told digest s) := by
    apply Action.forEach_ok _ xs s hs hok
    intro x s hs hok
    obtain ⟨hafter, htold⟩ := hact x s hs hok
    exact ⟨hafter, htold digest⟩
  rwa [List.foldl_fixed] at hrun

/-- A batch reads the records of a digest in its two passes. -/
theorem trace (h : Running s) (batch : Batch) (digest : String)
    (hok : (trace handler batch s).1 = .ok ()) : Running (trace handler batch s).2 ∧
      told digest (Tracer.trace handler batch s).2 =
        Turn.replayBatch (told digest s) (recordsOf digest [batch]) := by
  rw [trace_run] at hok ⊢
  cases horder : orderVertices batch.vertices with
  | error e =>
    rw [horder] at hok
    cases hok
  | ok vertices =>
    rw [horder] at hok
    have hrecords : recordsOf digest [batch] = vertices.filter (·.digest = digest) := by
      simp [recordsOf, processed, horder]
    obtain ⟨_, s₁, h₁, hok₁, hs₁⟩ := Action.exists_of_bind_ok hok
    obtain ⟨_, s₂, h₂, hok₂, hs₂⟩ := Action.exists_of_bind_ok hok₁
    obtain ⟨_, s₃, h₃, hok₃, hs₃⟩ := Action.exists_of_bind_ok hok₂
    have hopened := pass (fun v s hs => announce hs v) vertices digest s h (by rw [h₁])
    rw [h₁] at hopened
    have hstatuses :=
      silentPass (fun c s hs => traceStatus hs c) batch.statuses digest s₁ hopened.1 (by rw [h₂])
    rw [h₂] at hstatuses
    have hlogs :=
      silentPass (fun l s hs => traceLog hs l) batch.logs digest s₂ hstatuses.1 (by rw [h₃])
    rw [h₃] at hlogs
    have hclosed := pass (fun v s hs => conclude hs v) vertices digest s₃ hlogs.1 hok₃
    simp only [hs₁, hs₂, hs₃]
    refine ⟨hclosed.1, ?_⟩
    rw [hclosed.2, hlogs.2, hstatuses.2, hopened.2, hrecords]
    rfl

end Running

section Runs

variable {batches : List Batch}

theorem recordsOf_concat (digest : String) (batches : List Batch) (batch : Batch) :
    recordsOf digest (batches ++ [batch]) = recordsOf digest batches ++ recordsOf digest [batch] := by
  simp [recordsOf]

theorem Accepted.restrict {earlier : List Batch} (h : Accepted handler batches)
    (hpre : earlier <+: batches) : Accepted handler earlier :=
  fun before batch hbefore => h before batch (hbefore.trans hpre)

theorem accepted_nil : Accepted handler [] := by
  intro earlier batch hpre
  exact absurd (List.prefix_nil.mp hpre) (by simp)

theorem Accepted.concat {batch : Batch} (h : Accepted handler batches)
    (hok : (trace handler batch (after handler batches)).1 = .ok ()) :
    Accepted handler (batches ++ [batch]) := by
  intro earlier batch' hpre
  rcases List.prefix_concat_iff.mp hpre with heq | hpre
  · obtain ⟨rfl, hbatch⟩ := List.append_inj' heq rfl
    obtain rfl : batch' = batch := by simpa using hbatch
    exact hok
  · exact h earlier batch' hpre

theorem Accepted.running (h : Accepted handler batches) : Running (after handler batches) := by
  induction batches using List.reverseRecOn with
  | nil => exact ⟨rfl, Live.initial⟩
  | append_singleton batches batch ih =>
    rw [after_concat]
    exact ((ih (h.restrict (List.prefix_append _ _))).trace batch "" (h _ _ List.prefix_rfl)).1

theorem Accepted.told_concat {batch : Batch} (h : Accepted handler (batches ++ [batch]))
    (digest : String) : told digest (after handler (batches ++ [batch])) =
      Turn.replayBatch (told digest (after handler batches)) (recordsOf digest [batch]) := by
  have hrunning := (h.restrict (List.prefix_append _ _)).running
  rw [after_concat]
  exact (hrunning.trace batch digest (h _ _ List.prefix_rfl)).2

theorem Accepted.told_eq (h : Accepted handler batches) (digest : String) :
    told digest (after handler batches) =
      batches.foldl (fun turns batch => Turn.replayBatch turns (recordsOf digest [batch])) [] := by
  induction batches using List.reverseRecOn with
  | nil => rfl
  | append_singleton batches batch ih =>
    rw [h.told_concat, ih (h.restrict (List.prefix_append _ _)), List.foldl_concat]

/-- After each batch a run has told what the records say exactly if every batch is in step. -/
theorem Accepted.told_eq_replay_iff (h : Accepted handler batches) (digest : String) :
    (∀ earlier, earlier <+: batches →
      told digest (after handler earlier) = Turn.replay [] (recordsOf digest earlier)) ↔
    ∀ earlier batch, earlier ++ [batch] <+: batches →
      Turn.InStep (Turn.replay [] (recordsOf digest earlier)) (recordsOf digest [batch]) := by
  constructor
  · intro htold earlier batch hpre
    have hbefore := htold earlier ((List.prefix_append _ _).trans hpre)
    have hafter := htold (earlier ++ [batch]) hpre
    rw [(h.restrict hpre).told_concat, hbefore, recordsOf_concat, Turn.replay_append] at hafter
    exact (Turn.replayBatch_eq_replay_iff _ _).mp hafter
  · intro hstep earlier hpre
    induction earlier using List.reverseRecOn with
    | nil => rfl
    | append_singleton earlier batch ih =>
      rw [(h.restrict hpre).told_concat, ih ((List.prefix_append _ _).trans hpre),
        recordsOf_concat, Turn.replay_append]
      exact (Turn.replayBatch_eq_replay_iff _ _).mpr (hstep earlier batch hpre)

/-- A run whose batches have at most one record of a digest each is always in step. -/
theorem Accepted.told_eq_replay (h : Accepted handler batches) {digest : String}
    (hsingle : ∀ batch ∈ batches, (recordsOf digest [batch]).length ≤ 1) :
    told digest (after handler batches) = Turn.replay [] (recordsOf digest batches) := by
  apply (h.told_eq_replay_iff digest).mpr _ batches List.prefix_rfl
  intro earlier batch hpre
  have hin : batch ∈ batches := hpre.subset (List.mem_append_right _ List.mem_cons_self)
  exact Turn.inStep_of_length_le_one (hsingle batch hin)

/-- In a run without errors, each batch is read in its two passes, and after each of them the starts
and finishes of a step that were told are those that its records say one by one, exactly if every
batch was in step with what its predecessors told. -/
theorem restarts_replayed (handler : Handler) (batches : List Batch) (digest : String)
    (h : Accepted handler batches) :
    told digest (after handler batches) =
      batches.foldl (fun turns batch => Turn.replayBatch turns (recordsOf digest [batch])) [] ∧
    ((∀ earlier, earlier <+: batches →
        told digest (after handler earlier) = Turn.replay [] (recordsOf digest earlier)) ↔
      ∀ earlier batch, earlier ++ [batch] <+: batches →
        Turn.InStep (Turn.replay [] (recordsOf digest earlier)) (recordsOf digest [batch])) :=
  ⟨h.told_eq digest, h.told_eq_replay_iff digest⟩

/-- A vertex that completes, and runs and completes again in the next batch, is told as it was. -/
theorem restarts_replayed_two_batches :
    let completed : Vertex := { digest := "d", name := "n", completed := some ⟨1, 0⟩ }
    let running : Vertex := { digest := "d", name := "n" }
    let batches : List Batch := [{ vertices := [completed] }, { vertices := [running, completed] }]
    Accepted .quiet batches ∧ told "d" (after .quiet batches) =
      [.start "n", .finish, .start "n", .finish] := by
  intro completed running batches
  have hfirst : Accepted .quiet [{ vertices := [completed] }] := accepted_nil.concat (by decide)
  have haccepted : Accepted .quiet batches := hfirst.concat (by decide)
  exact ⟨haccepted, (restarts_replayed .quiet batches "d" haccepted).1.trans (by decide)⟩

/-- Inside one batch the restart is lost. -/
theorem restart_lost_within_batch :
    let completed : Vertex := { digest := "d", name := "n", completed := some ⟨1, 0⟩ }
    let running : Vertex := { digest := "d", name := "n" }
    let batches : List Batch := [{ vertices := [completed, running, completed] }]
    Accepted .quiet batches ∧
      Turn.replay [] (recordsOf "d" batches) = [.start "n", .finish, .start "n", .finish] ∧
      told "d" (after .quiet batches) = [.start "n", .finish] := by
  intro completed running batches
  have haccepted : Accepted .quiet batches := accepted_nil.concat (by decide)
  exact ⟨haccepted, by decide, by decide⟩

end Runs

end Tracer

end BuildProgress
