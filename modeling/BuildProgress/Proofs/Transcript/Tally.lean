import BuildProgress.Proofs.Replay
import BuildProgress.Proofs.Transcript.Pieces

/-!
# Counting the ends of a step

How often a step has finished can be counted in two places: in what the handler was told of it, and
in the lines that the transcript shows of it. The handler is told what a batch says in two passes,
the transcript shows it in one. If a batch holds at most one record of a vertex, both count the same.
-/

namespace BuildProgress

set_option autoImplicit false

/-- Whether a step is finished, and how often it has finished. -/
structure Tally where
  finished : Bool
  times : Nat
deriving DecidableEq, Repr

/-- A completed record finishes a step that is not finished; any other leaves it open. -/
def Tally.read (tally : Tally) (v : Vertex) : Tally :=
  if v.isCompleted then
    { finished := true, times := if tally.finished then tally.times else tally.times + 1 }
  else { tally with finished := false }

namespace Turn

def tally (turns : List Turn) : Tally where
  finished := decide (turns.getLast? = some finish)
  times := turns.count finish

variable {turns : List Turn} {v : Vertex} {vs : List Vertex}

theorem tally_finish (turns : List Turn) :
    tally (turns ++ [finish]) = { finished := true, times := (tally turns).times + 1 } := by
  simp [tally]

theorem tally_start (turns : List Turn) (name : String) :
    tally (turns ++ [start name]) = { tally turns with finished := false } := by
  simp [tally]

theorem tally_of_open (h : turns.getLast? ≠ some finish) :
    tally turns = { tally turns with finished := false } := by
  simp [tally, h]

theorem tally_replayBatch_singleton (turns : List Turn) (v : Vertex) :
    tally (replayBatch turns [v]) = (tally turns).read v := by
  have hread : replayBatch turns [v] = closed (opened turns v) v := rfl
  rw [hread, Tally.read]
  cases hdone : v.isCompleted with
  | false =>
    rw [closed_of_running hdone, if_neg Bool.false_ne_true]
    unfold opened
    split
    · split
      · exact tally_start _ _
      · exact tally_of_open (by simp [*])
    · exact tally_of_open (by simp [*])
    · simp only [hdone, Bool.false_eq_true, if_false]
      exact tally_start _ _
  | true =>
    rw [if_pos rfl]
    cases hlast : turns.getLast? with
    | none =>
      obtain rfl := List.getLast?_eq_none_iff.mp hlast
      simp [opened, closed, hdone, tally]
    | some turn =>
      cases turn with
      | start name =>
        rw [opened_of_start hlast, closed_of_start hlast, if_pos hdone, tally_finish]
        simp [tally, hlast]
      | finish =>
        rw [opened_of_finish hlast, if_pos hdone, closed_of_finish hlast]
        simp [tally, hlast]

theorem tally_replayBatch (h : vs.length ≤ 1) :
    tally (replayBatch turns vs) = vs.foldl Tally.read (tally turns) := by
  match vs, h with
  | [], _ => rfl
  | [v], _ => exact tally_replayBatch_singleton turns v

end Turn

namespace Transcript

variable {t : Transcript} {pieces more : List Piece} {stepOf : String → Option Nat} {step : Nat}

/-- How often a transcript has shown the end of a step, and whether it still takes it for ended. -/
def tally (step : Nat) (t : Transcript) (pieces : List Piece) : Tally where
  finished := decide (step ∈ t.finished)
  times := (linesOf step pieces).countP Line.isFinish

/-- A record that the transcript reads as its end is one that completes it and reports no error. -/
structure Ordinary (v : Vertex) : Prop where
  error : v.error = ""
  cached : v.cached = true → v.isCompleted = true

theorem tally_append {t' : Transcript} (hfinished : step ∈ t'.finished ↔ step ∈ t.finished)
    (hmore : ∀ line ∈ linesOf step more, line.isFinish = false) :
    tally step t' (pieces ++ more) = tally step t pieces := by
  have hnone : (linesOf step more).countP Line.isFinish = 0 := by
    rw [List.countP_eq_zero]
    intro line hin
    simp [hmore line hin]
  simp [tally, hfinished, linesOf_append, hnone]

theorem mem_namePieces {n : Nat} {name : String} {piece : Piece} (h : piece ∈ namePieces n name t) :
    piece = .line n (.name name) := by
  unfold namePieces at h
  split at h
  · cases h
  · exact List.mem_singleton.mp h

theorem mem_endPieces {n : Nat} {v : Vertex} {piece : Piece} (h : piece ∈ endPieces n v t) :
    ∃ line, piece = .line n line := by
  unfold endPieces at h
  split at h
  · exact ⟨_, List.mem_singleton.mp h⟩
  · split at h
    · exact ⟨_, List.mem_singleton.mp h⟩
    · split at h
      · exact ⟨_, List.mem_singleton.mp h⟩
      · cases h

theorem mem_showEnd_finished_of_ne {n : Nat} {v : Vertex} (h : step ≠ n) :
    step ∈ (t.showEnd n v).finished ↔ step ∈ t.finished := by
  unfold showEnd
  split
  · simp [noteEnd, h]
  · split
    · simp
    · split
      · split
        · rfl
        · simp [noteEnd, noteReading, h]
      · simp [noteOpen, h]

theorem statusPieces_no_finish (s : VertexStatus) :
    ∀ line ∈ linesOf step (statusPieces stepOf s), line.isFinish = false := by
  intro line hin
  rw [mem_linesOf, statusPieces] at hin
  split at hin
  · split at hin
    · cases List.mem_singleton.mp hin
      rfl
    · cases hin
  · cases hin

theorem logPieces_no_finish (l : VertexLog) :
    ∀ line ∈ linesOf step (logPieces stepOf l t), line.isFinish = false := by
  intro line hin
  rw [mem_linesOf, logPieces] at hin
  split at hin
  · obtain ⟨text, _, heq⟩ := List.mem_map.mp hin
    cases heq
    rfl
  · cases hin

theorem showName_tally (n : Nat) (name : String) (t : Transcript) (pieces : List Piece) :
    tally step (t.showName n name) (pieces ++ namePieces n name t) = tally step t pieces := by
  apply tally_append
  · rw [showName_finished]
  · intro line hin
    cases mem_namePieces (mem_linesOf.mp hin)
    rfl

section Ends

variable {v : Vertex} (h : Ordinary v)
include h

/-- An ordinary record ends a step in one way or the other, unless it was ended before. -/
theorem showEnd_tally (t : Transcript) (pieces : List Piece) :
    tally step (t.showEnd step v) (pieces ++ endPieces step v t) = (tally step t pieces).read v := by
  have hline : ∀ line : Line, line.isFinish = true →
      (linesOf step (pieces ++ [.line step line])).countP Line.isFinish =
        (linesOf step pieces).countP Line.isFinish + 1 := by
    intro line hfinish
    simp [linesOf, Piece.lineOf?, hfinish]
  unfold showEnd endPieces tally Tally.read
  by_cases hin : step ∈ t.finished
  · cases hdone : v.isCompleted with
    | true => simp [hin, h.error]
    | false => simp [hin, h.error, noteOpen]
  · cases hdone : v.isCompleted with
    | true =>
      cases hcached : v.cached with
      | true => simp [hin, noteEnd, hline .cached rfl]
      | false => simp [hin, h.error, noteEnd, noteReading, hline (.done t.elapsed) rfl]
    | false =>
      have hcached : v.cached = false := by
        rw [← Bool.not_eq_true]
        intro hcached
        rw [h.cached hcached] at hdone
        cases hdone
      simp [hin, h.error, hcached, noteOpen]

theorem showVertex_tally (t : Transcript) (pieces : List Piece) :
    tally step (showVertex stepOf t v) (pieces ++ vertexPieces stepOf v t) =
      if stepOf v.digest = some step then (tally step t pieces).read v else tally step t pieces := by
  unfold showVertex vertexPieces
  cases stepOf v.digest with
  | none => simp
  | some n =>
    have hend : endPieces n v t = endPieces n v (t.showName n v.name) :=
      (endPieces_showName n n v v.name t).symm
    rw [← List.append_assoc, hend]
    by_cases hn : n = step
    · subst hn
      rw [if_pos rfl, showEnd_tally h, showName_tally]
    · rw [if_neg (by simpa using hn), ← showName_tally n v.name t pieces]
      apply tally_append
      · exact mem_showEnd_finished_of_ne (Ne.symm hn)
      · intro line hin
        obtain ⟨_, heq⟩ := mem_endPieces (mem_linesOf.mp hin)
        cases heq
        exact absurd rfl hn

end Ends

theorem showVertices_tally {vertices : List Vertex} (h : ∀ v ∈ vertices, Ordinary v)
    (t : Transcript) (pieces : List Piece) :
    tally step (vertices.foldl (showVertex stepOf) t)
        (pieces ++ piecesAlong (showVertex stepOf) (vertexPieces stepOf) vertices t) =
      (vertices.filter (stepOf ·.digest = some step)).foldl Tally.read (tally step t pieces) := by
  induction vertices generalizing t pieces with
  | nil => simp [piecesAlong]
  | cons v vertices ih =>
    obtain ⟨hv, hvertices⟩ := List.forall_mem_cons.mp h
    rw [List.foldl_cons, piecesAlong, ← List.append_assoc, ih hvertices, showVertex_tally hv,
      List.filter_cons]
    by_cases hstep : stepOf v.digest = some step <;> simp [hstep]

/-- A batch of ordinary records counts as its records do, one after the other. -/
theorem showBatch_tally {b : Batch} (h : ∀ v ∈ b.vertices, Ordinary v) (t : Transcript)
    (pieces : List Piece) :
    tally step (t.showBatch stepOf b) (pieces ++ batchPieces stepOf b t) =
      ((shownVertices b.vertices).filter (stepOf ·.digest = some step)).foldl Tally.read
        (tally step t pieces) := by
  rw [batchPieces, ← List.append_assoc,
    ← showVertices_tally (fun v hv => h v (mem_shownVertices.mp hv)) t pieces]
  apply tally_append
  · rw [(SameSteps.showBatch stepOf b t).finished]
  · intro line hin
    rw [mem_linesOf, List.mem_append] at hin
    cases hin with
    | inl hin =>
      obtain ⟨s, _, hin⟩ := List.mem_flatMap.mp hin
      exact statusPieces_no_finish s line (mem_linesOf.mpr hin)
    | inr hin =>
      obtain ⟨l, _, _, hin⟩ := exists_of_mem_piecesAlong hin
      exact logPieces_no_finish l line (mem_linesOf.mpr hin)

end Transcript

end BuildProgress
