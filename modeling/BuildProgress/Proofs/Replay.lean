import BuildProgress.Graph.Batch
import BuildProgress.Proofs.Lifecycle
import Mathlib.Data.List.TakeWhile

/-!
# Replaying the records of a vertex

The records of one vertex say when its step starts and finishes. Read one by one, each record may
start the step, or start it again, and then finish it. A batch is read in two passes instead: all
its records may start the step before any of them may finish it.

The two readings differ if a record that runs follows one that has completed inside a batch: the
second pass comes too late for it. `InStep` says exactly when they agree.
-/

namespace BuildProgress

set_option autoImplicit false

namespace Turn

/-- The record starts a step that has not begun or is finished. -/
def opened (turns : List Turn) (v : Vertex) : List Turn :=
  match turns.getLast? with
  | none => if v.isStarted || v.isCompleted then turns ++ [start v.name] else turns
  | some (start _) => turns
  | some finish => if v.isCompleted then turns else turns ++ [start v.name]

/-- The record finishes a step that is open. -/
def closed (turns : List Turn) (v : Vertex) : List Turn :=
  match turns.getLast? with
  | some (start _) => if v.isCompleted then turns ++ [finish] else turns
  | _ => turns

/-- The records are read one by one. -/
def replay (turns : List Turn) (vs : List Vertex) : List Turn :=
  vs.foldl (fun turns v => closed (opened turns v) v) turns

/-- The records are read in two passes. -/
def replayBatch (turns : List Turn) (vs : List Vertex) : List Turn :=
  vs.foldl closed (vs.foldl opened turns)

/-- No record that runs follows one that has completed. -/
def CompletesLast (vs : List Vertex) : Prop :=
  vs.Pairwise fun v w => v.isCompleted → w.isCompleted
deriving Decidable

/-- No record of a batch runs after one that has completed. If the step was finished before, the
batch may begin with completed records that repeat it; if others restart the step after these, one
of them completes it. -/
def InStep (turns : List Turn) (vs : List Vertex) : Prop :=
  if turns.getLast? = some finish then
    let restart := vs.dropWhile (·.isCompleted)
    CompletesLast restart ∧ (restart = [] ∨ restart = vs ∨ ∃ v ∈ restart, v.isCompleted)
  else CompletesLast vs
deriving Decidable

variable {turns : List Turn} {v : Vertex} {vs ws : List Vertex} {name : String}

theorem replay_append (turns : List Turn) (vs ws : List Vertex) :
    replay turns (vs ++ ws) = replay (replay turns vs) ws :=
  List.foldl_append

theorem replay_cons (turns : List Turn) (v : Vertex) (vs : List Vertex) :
    replay turns (v :: vs) = replay (closed (opened turns v) v) vs := rfl

theorem completesLast_cons_of_running (h : v.isCompleted = false) :
    CompletesLast (v :: vs) ↔ CompletesLast vs := by
  simp [CompletesLast, h]

theorem completesLast_cons_of_completed (h : v.isCompleted = true) :
    CompletesLast (v :: vs) ↔ ∀ w ∈ vs, w.isCompleted := by
  rw [CompletesLast, List.pairwise_cons]
  constructor
  · exact fun hv w hw => hv.1 w hw h
  · intro hvs
    exact ⟨fun w hw _ => hvs w hw,
      List.pairwise_of_forall_mem_list fun _ _ w hw _ => hvs w hw⟩

section Passes

theorem prefix_opened (turns : List Turn) (v : Vertex) : turns <+: opened turns v := by
  unfold opened
  split
  · split
    · exact List.prefix_append _ _
    · exact List.prefix_rfl
  · exact List.prefix_rfl
  · split
    · exact List.prefix_rfl
    · exact List.prefix_append _ _

theorem prefix_closed (turns : List Turn) (v : Vertex) : turns <+: closed turns v := by
  unfold closed
  split
  · split
    · exact List.prefix_append _ _
    · exact List.prefix_rfl
  · exact List.prefix_rfl

theorem prefix_replay (turns : List Turn) (vs : List Vertex) : turns <+: replay turns vs := by
  induction vs generalizing turns with
  | nil => exact List.prefix_rfl
  | cons v vs ih =>
    rw [replay_cons]
    exact (prefix_opened turns v).trans ((prefix_closed _ v).trans (ih _))

theorem opened_of_start (h : turns.getLast? = some (start name)) : opened turns v = turns := by
  simp [opened, h]

theorem opened_of_finish (h : turns.getLast? = some finish) :
    opened turns v = if v.isCompleted then turns else turns ++ [start v.name] := by
  simp [opened, h]

theorem closed_of_start (h : turns.getLast? = some (start name)) :
    closed turns v = if v.isCompleted then turns ++ [finish] else turns := by
  simp [closed, h]

theorem closed_of_finish (h : turns.getLast? = some finish) : closed turns v = turns := by
  simp [closed, h]

theorem closed_of_running (h : v.isCompleted = false) : closed turns v = turns := by
  unfold closed
  split <;> simp [h]

end Passes

section Reading

/-- A finished step stays finished as long as all records have completed. -/
theorem replay_of_finish_iff (h : turns.getLast? = some finish) :
    replay turns vs = turns ↔ ∀ v ∈ vs, v.isCompleted := by
  induction vs with
  | nil => simp [replay]
  | cons v vs ih =>
    rw [replay_cons, List.forall_mem_cons, opened_of_finish h]
    cases hv : v.isCompleted with
    | true => simp [closed_of_finish h, ih]
    | false =>
      have hrestart := prefix_replay (turns ++ [start v.name]) vs
      have hne : replay (turns ++ [start v.name]) vs ≠ turns := by
        intro heq
        have hlen := hrestart.length_le
        rw [heq, List.length_append, List.length_singleton] at hlen
        omega
      simp [closed_of_running hv, hne]

/-- An open step is finished once and not started again as long as completed records come last. -/
theorem replay_of_start_iff (h : turns.getLast? = some (start name)) :
    replay turns vs = (if vs.any (·.isCompleted) then turns ++ [finish] else turns) ↔
      CompletesLast vs := by
  induction vs with
  | nil => simp [replay, CompletesLast]
  | cons v vs ih =>
    rw [replay_cons, opened_of_start h, closed_of_start h, List.any_cons]
    cases hv : v.isCompleted with
    | true =>
      have hlast : (turns ++ [finish]).getLast? = some finish := List.getLast?_concat
      simpa [completesLast_cons_of_completed hv] using replay_of_finish_iff hlast
    | false =>
      rw [completesLast_cons_of_running hv]
      simpa using ih

theorem foldl_opened_of_start (h : turns.getLast? = some (start name)) :
    vs.foldl opened turns = turns :=
  List.foldl_fixed' (fun _ => opened_of_start h) vs

theorem foldl_opened_of_finish (h : turns.getLast? = some finish)
    (hvs : ∀ v ∈ vs, v.isCompleted) : vs.foldl opened turns = turns := by
  induction vs with
  | nil => rfl
  | cons v vs ih =>
    obtain ⟨hv, hvs⟩ := List.forall_mem_cons.mp hvs
    rw [List.foldl_cons, opened_of_finish h, if_pos hv]
    exact ih hvs

theorem foldl_closed_of_finish (h : turns.getLast? = some finish) :
    vs.foldl closed turns = turns :=
  List.foldl_fixed' (fun _ => closed_of_finish h) vs

theorem foldl_closed_of_start (h : turns.getLast? = some (start name)) :
    vs.foldl closed turns = if vs.any (·.isCompleted) then turns ++ [finish] else turns := by
  induction vs with
  | nil => rfl
  | cons v vs ih =>
    rw [List.foldl_cons, closed_of_start h, List.any_cons]
    cases hv : v.isCompleted with
    | true => simpa using foldl_closed_of_finish List.getLast?_concat
    | false => simpa using ih

theorem replayBatch_of_start_iff (h : turns.getLast? = some (start name)) :
    replayBatch turns vs = replay turns vs ↔ CompletesLast vs := by
  rw [replayBatch, foldl_opened_of_start h, foldl_closed_of_start h, eq_comm]
  exact replay_of_start_iff h

/-- Before a step has begun, records that show no start are passed over. -/
theorem replayBatch_nil_iff : replayBatch [] vs = replay [] vs ↔ CompletesLast vs := by
  induction vs with
  | nil => simp [replayBatch, replay, CompletesLast]
  | cons v vs ih =>
    by_cases hseen : (v.isStarted || v.isCompleted) = true
    · have hopened : opened [] v = opened [start v.name] v := by simp [opened, hseen]
      have hbatch : replayBatch [] (v :: vs) = replayBatch [start v.name] (v :: vs) := by
        simp only [replayBatch, List.foldl_cons, hopened]
      have hreplay : replay [] (v :: vs) = replay [start v.name] (v :: vs) := by
        rw [replay_cons, replay_cons, hopened]
      rw [hbatch, hreplay]
      exact replayBatch_of_start_iff rfl
    · have hrunning : v.isCompleted = false := by
        cases hv : v.isCompleted with
        | true => simp [hv] at hseen
        | false => rfl
      have hopened : opened [] v = [] := by simp [opened, hseen]
      have hbatch : replayBatch [] (v :: vs) = replayBatch [] vs := by
        rw [replayBatch, List.foldl_cons, List.foldl_cons, closed_of_running hrunning, hopened]
        rfl
      have hreplay : replay [] (v :: vs) = replay [] vs := by
        rw [replay_cons, closed_of_running hrunning, hopened]
      rw [hbatch, hreplay, ih, completesLast_cons_of_running hrunning]

section Restart

variable {lead tail : List Vertex} {w : Vertex}

theorem replay_restart (h : turns.getLast? = some finish) (hlead : ∀ v ∈ lead, v.isCompleted)
    (hw : w.isCompleted = false) :
    replay turns (lead ++ w :: tail) = replay (turns ++ [start w.name]) tail := by
  rw [replay_append, (replay_of_finish_iff h).mpr hlead, replay_cons, opened_of_finish h,
    closed_of_running hw]
  simp [hw]

/-- The second pass also sees the completed records before the restart. -/
theorem replayBatch_restart (h : turns.getLast? = some finish) (hlead : ∀ v ∈ lead, v.isCompleted)
    (hw : w.isCompleted = false) : replayBatch turns (lead ++ w :: tail) =
      if lead = [] ∧ tail.any (·.isCompleted) = false then turns ++ [start w.name]
      else turns ++ [start w.name] ++ [finish] := by
  have hlast : (turns ++ [start w.name]).getLast? = some (start w.name) := List.getLast?_concat
  have hopened : (lead ++ w :: tail).foldl opened turns = turns ++ [start w.name] := by
    rw [List.foldl_append, foldl_opened_of_finish h hlead, List.foldl_cons, opened_of_finish h, hw]
    exact foldl_opened_of_start hlast
  have hany : (lead ++ w :: tail).any (·.isCompleted) = true ↔
      ¬ (lead = [] ∧ tail.any (·.isCompleted) = false) := by
    cases lead with
    | nil => simp [hw]
    | cons v lead => simp [hlead v List.mem_cons_self]
  rw [replayBatch, hopened, foldl_closed_of_start hlast]
  by_cases hbare : lead = [] ∧ tail.any (·.isCompleted) = false
  · rw [if_neg (fun hin => hany.mp hin hbare), if_pos hbare]
  · rw [if_pos (hany.mpr hbare), if_neg hbare]

theorem replayBatch_restart_iff (h : turns.getLast? = some finish)
    (hlead : ∀ v ∈ lead, v.isCompleted) (hw : w.isCompleted = false) :
    replayBatch turns (lead ++ w :: tail) = replay turns (lead ++ w :: tail) ↔
      CompletesLast tail ∧ (lead = [] ∨ tail.any (·.isCompleted) = true) := by
  have hlast : (turns ++ [start w.name]).getLast? = some (start w.name) := List.getLast?_concat
  have hreplay : replay (turns ++ [start w.name]) tail =
      (if tail.any (·.isCompleted) then turns ++ [start w.name] ++ [finish]
        else turns ++ [start w.name]) ↔ CompletesLast tail := replay_of_start_iff hlast
  rw [replayBatch_restart h hlead hw, replay_restart h hlead hw, eq_comm]
  cases htail : tail.any (·.isCompleted) with
  | true => simpa [htail] using hreplay
  | false =>
    have hcompletes : CompletesLast tail :=
      List.pairwise_of_forall_mem_list fun v hv _ _ hdone =>
        absurd hdone (List.any_eq_false.mp htail v hv)
    have hsame : replay (turns ++ [start w.name]) tail = turns ++ [start w.name] := by
      simpa [htail] using hreplay.mpr hcompletes
    rw [hsame]
    by_cases hnil : lead = []
    · simp [hnil, hcompletes]
    · simp [hnil]

theorem replayBatch_of_finish_iff (h : turns.getLast? = some finish) :
    replayBatch turns vs = replay turns vs ↔ InStep turns vs := by
  have hvs : vs.takeWhile (·.isCompleted) ++ vs.dropWhile (·.isCompleted) = vs :=
    List.takeWhile_append_dropWhile
  have hlead : ∀ v ∈ vs.takeWhile (·.isCompleted), v.isCompleted :=
    fun v hv => List.mem_takeWhile_imp hv
  rw [InStep, if_pos h]
  generalize vs.takeWhile (·.isCompleted) = lead at hvs hlead
  cases hrestart : vs.dropWhile (·.isCompleted) with
  | nil =>
    have hall : ∀ v ∈ vs, v.isCompleted := List.dropWhile_eq_nil_iff.mp hrestart
    rw [replayBatch, foldl_opened_of_finish h hall, foldl_closed_of_finish h,
      (replay_of_finish_iff h).mpr hall]
    simp [CompletesLast]
  | cons w tail =>
    have hw : w.isCompleted = false := by
      have hhead := List.head_dropWhile_not (·.isCompleted) (l := vs) (by simp [hrestart])
      simpa [hrestart] using hhead
    rw [hrestart] at hvs
    have hsame : w :: tail = vs ↔ lead = [] := by
      rw [← hvs]
      simp
    rw [← hvs, replayBatch_restart_iff h hlead hw, hvs]
    simp [completesLast_cons_of_running hw, hsame, hw]

end Restart

/-- The two readings of a batch agree exactly if it is in step. -/
theorem replayBatch_eq_replay_iff (turns : List Turn) (vs : List Vertex) :
    replayBatch turns vs = replay turns vs ↔ InStep turns vs := by
  cases hlast : turns.getLast? with
  | none =>
    obtain rfl := List.getLast?_eq_none_iff.mp hlast
    exact replayBatch_nil_iff
  | some turn =>
    cases turn with
    | start name =>
      rw [InStep, if_neg (by simp [hlast])]
      exact replayBatch_of_start_iff hlast
    | finish => exact replayBatch_of_finish_iff hlast

end Reading

theorem inStep_of_length_le_one (h : vs.length ≤ 1) : InStep turns vs := by
  match vs, h with
  | [], _ => simp [InStep, CompletesLast]
  | [v], _ => cases hv : v.isCompleted <;> simp [InStep, CompletesLast, hv]

/-- A restart inside a batch is lost. -/
example :
    let completed : Vertex := { name := "a", completed := some ⟨1, 0⟩ }
    let running : Vertex := { name := "b" }
    replay [] [completed, running, completed] = [start "a", finish, start "b", finish] ∧
      replayBatch [] [completed, running, completed] = [start "a", finish] := by
  decide

end Turn

end BuildProgress
