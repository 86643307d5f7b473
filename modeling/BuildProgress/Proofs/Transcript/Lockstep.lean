import BuildProgress.Proofs.Transcript.Pieces

/-!
# Transcripts in lockstep

Two transcripts that are shown the same can differ in what is written: one of them is coloured, or its
writer has failed. What they remember of the steps does not depend on that, so they write the same
lines at the same moments, with the same readings of the clock. A relation between two transcripts that
is kept line by line is therefore kept by all that they are shown.
-/

namespace BuildProgress.Transcript

set_option autoImplicit false

/-- Every text in the line fits. -/
def Line.Fits (Fit : List Char → Prop) : Line → Prop
  | name text | failure text | counter text => Fit text.toList
  | cached => True
  | done elapsed => Fit elapsed.toList
  | output elapsed text => Fit elapsed.toList ∧ Fit text

/-- The relation holds of transcripts that remember the same of the steps and look at one clock, and is
kept when both of them remember something, look at the clock, or write a line about a step, each in its
own colours. -/
structure Lockstep (Fit : List Char → Prop) (R : Transcript → Transcript → Prop) : Prop where
  announced : ∀ {t u}, R t u → u.announced = t.announced
  finished : ∀ {t u}, R t u → u.finished = t.finished
  elapsed : ∀ {t u}, R t u → u.elapsed = t.elapsed
  reading : ∀ {t u}, R t u → Fit t.elapsed.toList
  announce : ∀ {t u} announced, R t u → R { t with announced } { u with announced }
  finish : ∀ {t u} finished, R t u → R { t with finished } { u with finished }
  noteReading : ∀ {t u}, R t u → R t.noteReading u.noteReading
  stepLine : ∀ {t u} step line, Line.Fits Fit line → R t u →
    R (t.stepLine step (line.text t.color)) (u.stepLine step (line.text u.color))

/-- Every text of a batch that a line can show fits. -/
structure Fits (Fit : List Char → Prop) (b : Batch) : Prop where
  names : ∀ v ∈ b.vertices, Fit v.name.toList
  failures : ∀ v ∈ b.vertices, Fit v.error.toList
  counters : ∀ s ∈ b.statuses, Fit s.id.toList
  output : ∀ l ∈ b.logs, ∀ line ∈ Text.lines (Utf8.decodeLossy l.data), Fit line

namespace Lockstep

variable {Fit : List Char → Prop} {R : Transcript → Transcript → Prop} {t u : Transcript}
  {stepOf : String → Option Nat} {step : Nat}

theorem showName (h : Lockstep Fit R) {name : String} (hname : Fit name.toList) (htu : R t u) :
    R (t.showName step name) (u.showName step name) := by
  unfold Transcript.showName
  rw [h.announced htu]
  by_cases hin : step ∈ t.announced
  · rw [if_pos hin, if_pos hin]
    exact htu
  · rw [if_neg hin, if_neg hin]
    exact h.stepLine step (.name name) hname (h.announce _ htu)

theorem noteEnd (h : Lockstep Fit R) (htu : R t u) : R (t.noteEnd step) (u.noteEnd step) := by
  unfold Transcript.noteEnd
  rw [h.finished htu]
  exact h.finish _ htu

theorem noteOpen (h : Lockstep Fit R) (htu : R t u) : R (t.noteOpen step) (u.noteOpen step) := by
  unfold Transcript.noteOpen
  rw [h.finished htu]
  exact h.finish _ htu

theorem showEnd (h : Lockstep Fit R) {v : Vertex} (hfailure : Fit v.error.toList)
    (htu : R t u) : R (t.showEnd step v) (u.showEnd step v) := by
  unfold Transcript.showEnd
  rw [h.finished htu]
  by_cases hcached : v.cached = true ∧ step ∉ t.finished
  · rw [if_pos hcached, if_pos hcached]
    exact h.stepLine step .cached trivial (h.noteEnd htu)
  · rw [if_neg hcached, if_neg hcached]
    by_cases herror : v.error ≠ ""
    · rw [if_pos herror, if_pos herror]
      exact h.stepLine step (.failure v.error) hfailure htu
    · rw [if_neg herror, if_neg herror]
      by_cases hdone : v.isCompleted = true
      · rw [if_pos hdone, if_pos hdone]
        by_cases hin : step ∈ t.finished
        · rw [if_pos hin, if_pos hin]
          exact htu
        · rw [if_neg hin, if_neg hin, h.elapsed htu]
          exact h.stepLine step (.done t.elapsed) (h.reading htu) (h.noteReading (h.noteEnd htu))
      · rw [if_neg hdone, if_neg hdone]
        exact h.noteOpen htu

theorem showVertex (h : Lockstep Fit R) {v : Vertex} (hname : Fit v.name.toList)
    (hfailure : Fit v.error.toList) (htu : R t u) :
    R (showVertex stepOf t v) (showVertex stepOf u v) := by
  unfold Transcript.showVertex
  cases stepOf v.digest with
  | none => exact htu
  | some step => exact h.showEnd hfailure (h.showName hname htu)

theorem showStatus (h : Lockstep Fit R) {s : VertexStatus} (hcounter : Fit s.id.toList)
    (htu : R t u) : R (showStatus stepOf t s) (showStatus stepOf u s) := by
  unfold Transcript.showStatus
  cases stepOf s.vertex with
  | none => exact htu
  | some step =>
    dsimp only
    split
    · exact h.stepLine step (.counter s.id) hcounter htu
    · exact htu

theorem showLog (h : Lockstep Fit R) {l : VertexLog}
    (houtput : ∀ line ∈ Text.lines (Utf8.decodeLossy l.data), Fit line) (htu : R t u) :
    R (showLog stepOf t l) (showLog stepOf u l) := by
  unfold Transcript.showLog
  cases stepOf l.vertex with
  | none => exact htu
  | some step =>
    rw [h.elapsed htu]
    apply List.foldl_rel (h.noteReading htu)
    intro line hin v w hvw
    exact h.stepLine step (.output t.elapsed line) ⟨h.reading htu, houtput line hin⟩ hvw

/-- What is kept line by line is kept by a batch. -/
theorem showBatch (h : Lockstep Fit R) {b : Batch} (hfits : Fits Fit b) (htu : R t u) :
    R (t.showBatch stepOf b) (u.showBatch stepOf b) := by
  unfold Transcript.showBatch
  apply List.foldl_rel
  · apply List.foldl_rel
    · apply List.foldl_rel htu
      intro v hv t u htu
      rw [mem_shownVertices] at hv
      exact h.showVertex (hfits.names v hv) (hfits.failures v hv) htu
    · exact fun s hs t u htu => h.showStatus (hfits.counters s hs) htu
  · exact fun l hl t u htu => h.showLog (hfits.output l hl) htu

end Lockstep

end BuildProgress.Transcript
