import BuildProgress.Proofs.Transcript.Pieces

/-!
# Steps are introduced

The first line about a step says its name, and no later line does. A transcript remembers the steps
that it has named, so that this holds over all that it is shown, as long as each step that a batch
is shown with either was named before or belongs to a vertex of the batch.
-/

namespace BuildProgress.Transcript

set_option autoImplicit false

variable {t : Transcript} {pieces more : List Piece} {announced : List Nat}
  {stepOf : String → Option Nat}

/-- The first line is the name of the step, and the only one. -/
def Introduced (lines : List Line) (name : String) : Prop :=
  ∃ rest, lines = .name name :: rest ∧ ∀ line ∈ rest, line.isName = false

/-- What was written since the beginning introduces these steps, each with one of the names that it
is called, and says nothing of any other. -/
structure Introduces (called : Nat → String → Prop) (announced : List Nat) (pieces : List Piece) :
    Prop where
  silent : ∀ step, step ∉ announced → linesOf step pieces = []
  named : ∀ step ∈ announced, ∃ name, called step name ∧ Introduced (linesOf step pieces) name

/-- A line that does not introduce its step: only a step that was introduced has one. -/
def Piece.Comments (announced : List Nat) : Piece → Prop
  | line step said => step ∈ announced ∧ said.isName = false
  | message _ => True

variable {called : Nat → String → Prop}

namespace Introduces

theorem nil : Introduces called [] [] :=
  ⟨fun _ _ => rfl, nofun⟩

theorem mono {called' : Nat → String → Prop} (h : Introduces called announced pieces)
    (himp : ∀ step name, called step name → called' step name) :
    Introduces called' announced pieces where
  silent := h.silent
  named := by
    intro step hin
    obtain ⟨name, hcalled, hfirst⟩ := h.named step hin
    exact ⟨name, himp step name hcalled, hfirst⟩

theorem comments (h : Introduces called announced pieces)
    (hmore : ∀ piece ∈ more, piece.Comments announced) :
    Introduces called announced (pieces ++ more) where
  silent := by
    intro step hnot
    have hnone : linesOf step more = [] := by
      apply List.eq_nil_iff_forall_not_mem.mpr
      intro line hin
      exact hnot (hmore _ (mem_linesOf.mp hin)).1
    rw [linesOf_append, h.silent step hnot, hnone, List.append_nil]
  named := by
    intro step hin
    obtain ⟨name, hcalled, rest, hlines, hrest⟩ := h.named step hin
    refine ⟨name, hcalled, rest ++ linesOf step more, ?_, ?_⟩
    · rw [linesOf_append, hlines, List.cons_append]
    · intro line hline
      rcases List.mem_append.mp hline with hline | hline
      · exact hrest line hline
      · exact (hmore _ (mem_linesOf.mp hline)).2

theorem name {step : Nat} {name : String} (h : Introduces called announced pieces)
    (hnew : step ∉ announced) (hcalled : called step name) :
    Introduces called (announced ++ [step]) (pieces ++ [.line step (.name name)]) where
  silent := by
    intro other hnot
    rw [List.mem_append, List.mem_singleton, not_or] at hnot
    have hother : linesOf other [.line step (.name name)] = [] := by
      simp [linesOf, Piece.lineOf?, Ne.symm hnot.2]
    rw [linesOf_append, h.silent other hnot.1, hother, List.append_nil]
  named := by
    intro other hin
    rw [List.mem_append, List.mem_singleton] at hin
    by_cases heq : other = step
    · subst heq
      refine ⟨name, hcalled, [], ?_, by simp⟩
      rw [linesOf_append, h.silent other hnew]
      simp [linesOf, Piece.lineOf?]
    · have hother : linesOf other [.line step (.name name)] = [] := by
        simp [linesOf, Piece.lineOf?, Ne.symm heq]
      rw [linesOf_append, hother, List.append_nil]
      exact h.named other (hin.resolve_right heq)

theorem showName {step : Nat} {name : String} (h : Introduces called t.announced pieces)
    (hcalled : called step name) :
    Introduces called (t.showName step name).announced (pieces ++ namePieces step name t) := by
  unfold namePieces Transcript.showName
  split
  · rw [List.append_nil]
    exact h
  · rw [stepLine_announced]
    exact h.name ‹_› hcalled

end Introduces

section Comments

theorem endPieces_comment {step : Nat} (v : Vertex) (hin : step ∈ announced) :
    ∀ piece ∈ endPieces step v t, piece.Comments announced := by
  intro piece hpiece
  unfold endPieces at hpiece
  split at hpiece
  · obtain rfl := List.mem_singleton.mp hpiece
    exact ⟨hin, rfl⟩
  · split at hpiece
    · obtain rfl := List.mem_singleton.mp hpiece
      exact ⟨hin, rfl⟩
    · split at hpiece
      · obtain rfl := List.mem_singleton.mp hpiece
        exact ⟨hin, rfl⟩
      · cases hpiece

variable (hknown : ∀ digest step, stepOf digest = some step → step ∈ announced)
include hknown

theorem statusPieces_comment (s : VertexStatus) :
    ∀ piece ∈ statusPieces stepOf s, piece.Comments announced := by
  intro piece hpiece
  unfold statusPieces at hpiece
  split at hpiece
  · split at hpiece
    · obtain rfl := List.mem_singleton.mp hpiece
      exact ⟨hknown s.vertex _ ‹_›, rfl⟩
    · cases hpiece
  · cases hpiece

theorem logPieces_comment (l : VertexLog) :
    ∀ piece ∈ logPieces stepOf l t, piece.Comments announced := by
  intro piece hpiece
  unfold logPieces at hpiece
  split at hpiece
  · obtain ⟨line, _, rfl⟩ := List.mem_map.mp hpiece
    exact ⟨hknown l.vertex _ ‹_›, rfl⟩
  · cases hpiece

end Comments

section Batches

theorem mem_showVertex_announced {v : Vertex} {step : Nat} :
    step ∈ (showVertex stepOf t v).announced ↔
      step ∈ t.announced ∨ stepOf v.digest = some step := by
  unfold showVertex
  cases stepOf v.digest with
  | none => simp
  | some n =>
    rw [showEnd_announced, mem_showName_announced, Option.some.injEq]
    exact or_congr_right eq_comm

theorem mem_showVertices_announced {vertices : List Vertex} {step : Nat} :
    step ∈ (vertices.foldl (showVertex stepOf) t).announced ↔
      step ∈ t.announced ∨ ∃ v ∈ vertices, stepOf v.digest = some step := by
  induction vertices generalizing t with
  | nil => simp
  | cons v vertices ih =>
    rw [List.foldl_cons, ih, mem_showVertex_announced, or_assoc, List.exists_mem_cons_iff]

theorem mem_showBatch_announced {b : Batch} {step : Nat} :
    step ∈ (t.showBatch stepOf b).announced ↔
      step ∈ t.announced ∨ ∃ v ∈ b.vertices, stepOf v.digest = some step := by
  rw [(SameSteps.showBatch stepOf b t).announced, mem_showVertices_announced]
  simp only [mem_shownVertices]

namespace Introduces

theorem showVertex {v : Vertex} (h : Introduces called t.announced pieces)
    (hcalled : ∀ step, stepOf v.digest = some step → called step v.name) :
    Introduces called (showVertex stepOf t v).announced (pieces ++ vertexPieces stepOf v t) := by
  unfold vertexPieces Transcript.showVertex
  cases hstep : stepOf v.digest with
  | none =>
    rw [List.append_nil]
    exact h
  | some step =>
    rw [showEnd_announced, ← List.append_assoc]
    apply (h.showName (hcalled step hstep)).comments
    exact endPieces_comment v (mem_showName_announced.mpr (Or.inr rfl))

theorem showVertices {vertices : List Vertex} (h : Introduces called t.announced pieces)
    (hcalled : ∀ v ∈ vertices, ∀ step, stepOf v.digest = some step → called step v.name) :
    Introduces called (vertices.foldl (Transcript.showVertex stepOf) t).announced
      (pieces ++ piecesAlong (Transcript.showVertex stepOf) (vertexPieces stepOf) vertices t) := by
  induction vertices generalizing t pieces with
  | nil =>
    rw [piecesAlong, List.append_nil]
    exact h
  | cons v vertices ih =>
    have hv := h.showVertex (hcalled v List.mem_cons_self)
    have hrest := ih hv fun w hw => hcalled w (List.mem_cons_of_mem v hw)
    rw [List.append_assoc] at hrest
    exact hrest

/-- A batch introduces the steps of its vertices, if it is shown with no other new step. -/
theorem showBatch {b : Batch} (h : Introduces called t.announced pieces)
    (hcalled : ∀ v ∈ b.vertices, ∀ step, stepOf v.digest = some step → called step v.name)
    (hknown : ∀ digest step, stepOf digest = some step →
      step ∈ t.announced ∨ ∃ v ∈ b.vertices, stepOf v.digest = some step) :
    Introduces called (t.showBatch stepOf b).announced (pieces ++ batchPieces stepOf b t) := by
  have hannounced : ∀ digest step, stepOf digest = some step →
      step ∈ (t.showBatch stepOf b).announced :=
    fun digest step hstep => mem_showBatch_announced.mpr (hknown digest step hstep)
  rw [(SameSteps.showBatch stepOf b t).announced] at hannounced ⊢
  have hvertices := h.showVertices fun v hv => hcalled v (mem_shownVertices.mp hv)
  rw [batchPieces, ← List.append_assoc]
  apply hvertices.comments
  intro piece hpiece
  rcases List.mem_append.mp hpiece with hpiece | hpiece
  · obtain ⟨s, _, hin⟩ := List.mem_flatMap.mp hpiece
    exact statusPieces_comment hannounced s piece hin
  · obtain ⟨l, _, _, hin⟩ := exists_of_mem_piecesAlong hpiece
    exact logPieces_comment hannounced l piece hin

theorem showMessage {m : Message} (h : Introduces called t.announced pieces) :
    Introduces called (t.showMessage m).announced (pieces ++ (Exhibit.message m).pieces t) := by
  rw [(SameSteps.showMessage t m).announced]
  apply h.comments
  intro piece hpiece
  obtain ⟨record, _, rfl⟩ := Option.map_eq_some_iff.mp (Option.mem_toList.mp hpiece)
  exact trivial

end Introduces

/-- The steps that are in use have been introduced, each with the name in one of the records that
were seen of its vertex. -/
structure Named (stepOf : String → Option Nat) (seen : List Vertex) (t : Transcript)
    (pieces : List Piece) : Prop where
  announced : ∀ step, step ∈ t.announced ↔ ∃ digest, stepOf digest = some step
  introduces : Introduces (fun step name => ∃ v ∈ seen, stepOf v.digest = some step ∧ v.name = name)
    t.announced pieces

namespace Named

variable {now : String → Option Nat} {seen : List Vertex}

theorem showMessage (h : Named stepOf seen t pieces) (m : Message) :
    Named stepOf seen (t.showMessage m) (pieces ++ (Exhibit.message m).pieces t) where
  announced := by
    rw [(SameSteps.showMessage t m).announced]
    exact h.announced
  introduces := h.introduces.showMessage

/-- What a batch adds to the steps in use belongs to its vertices. -/
theorem showBatch (h : Named stepOf seen t pieces) {b : Batch}
    (hkept : ∀ digest step, stepOf digest = some step → now digest = some step)
    (hnew : ∀ digest step, now digest = some step →
      stepOf digest = some step ∨ ∃ v ∈ b.vertices, v.digest = digest) :
    Named now (seen ++ b.vertices) (t.showBatch now b) (pieces ++ batchPieces now b t) where
  announced := by
    intro step
    rw [mem_showBatch_announced, h.announced]
    constructor
    · rintro (⟨digest, hstep⟩ | ⟨v, _, hstep⟩)
      · exact ⟨digest, hkept digest step hstep⟩
      · exact ⟨v.digest, hstep⟩
    · rintro ⟨digest, hstep⟩
      rcases hnew digest step hstep with hold | ⟨v, hv, rfl⟩
      · exact Or.inl ⟨digest, hold⟩
      · exact Or.inr ⟨v, hv, hstep⟩
  introduces := by
    have hbefore : Introduces (fun step name => ∃ v ∈ seen ++ b.vertices,
        now v.digest = some step ∧ v.name = name) t.announced pieces :=
      h.introduces.mono fun step name ⟨v, hv, hstep, hname⟩ =>
        ⟨v, List.mem_append_left _ hv, hkept v.digest step hstep, hname⟩
    apply hbefore.showBatch
    · exact fun v hv step hstep => ⟨v, List.mem_append_right _ hv, hstep, rfl⟩
    · intro digest step hstep
      rcases hnew digest step hstep with hold | ⟨v, hv, rfl⟩
      · exact Or.inl ((h.announced step).mpr ⟨digest, hold⟩)
      · exact Or.inr ⟨v, hv, hstep⟩

end Named

end Batches

end BuildProgress.Transcript
