import BuildProgress.Proofs.Graph.Order
import BuildProgress.Transcript.Basic

/-!
# What a transcript shows

A transcript without colours whose writer never fails holds what was shown, record by record: what
was written stays, and each thing that is shown adds its own records. So it can be said of a whole
batch which of its errors were shown: the error of a record with a step, unless the record says that
the result was cached and only that is shown.
-/

namespace BuildProgress.Transcript

set_option autoImplicit false

/-- Written without colours by a writer that never fails. -/
structure Plain (t : Transcript) : Prop where
  color : t.color = false
  room : t.room = none
  failed : t.failed = false

/-- The transcript after these records were added to it. -/
structure Adds (t : Transcript) (records : List String) (t' : Transcript) : Prop where
  plain : t'.Plain
  written : t'.written = t.written ++ records

def stepRecord (step : Nat) (line : String) : String :=
  "#" ++ toString step ++ " " ++ line ++ "\n"

def errorLine (message : String) : String :=
  "ERROR: " ++ message

/-- The record shows the failure, by itself or as that of a step. -/
def IsError (message record : String) : Prop :=
  record = errorLine message ++ "\n" ∨ ∃ step, record = stepRecord step (errorLine message)

variable {t t' t'' : Transcript} {records more : List String} {stepOf : String → Option Nat}

namespace Adds

theorem refl (h : t.Plain) : Adds t [] t :=
  ⟨h, (List.append_nil _).symm⟩

theorem trans (h : Adds t records t') (h' : Adds t' more t'') : Adds t (records ++ more) t'' :=
  ⟨h'.plain, by rw [h'.written, h.written, List.append_assoc]⟩

theorem noteEnd (h : t.Plain) (step : Nat) : Adds t [] (t.noteEnd step) :=
  ⟨⟨h.color, h.room, h.failed⟩, (List.append_nil _).symm⟩

theorem noteOpen (h : t.Plain) (step : Nat) : Adds t [] (t.noteOpen step) :=
  ⟨⟨h.color, h.room, h.failed⟩, (List.append_nil _).symm⟩

theorem noteReading (h : t.Plain) : Adds t [] t.noteReading :=
  ⟨⟨h.color, h.room, h.failed⟩, (List.append_nil _).symm⟩

theorem write (h : t.Plain) (record : String) : Adds t [record] (t.write record) := by
  unfold Transcript.write
  simp only [h.failed, h.room, Bool.false_eq_true, if_false]
  exact ⟨⟨h.color, rfl, rfl⟩, rfl⟩

theorem stepLine (h : t.Plain) (step : Nat) (line : String) :
    Adds t [stepRecord step line] (t.stepLine step line) :=
  write h (stepRecord step line)

theorem showMessage (h : t.Plain) (m : Message) :
    Adds t (messageRecord? false m).toList (t.showMessage m) := by
  unfold Transcript.showMessage
  rw [h.color]
  cases messageRecord? false m with
  | some record => exact write h record
  | none => exact refl h

end Adds

theorem messageRecord?_of_failure {m : Message} {message : String} (h : m.failure? = some message) :
    messageRecord? false m = some (errorLine message ++ "\n") := by
  simp [messageRecord?, h, paint, errorLine]

section Batches

/-- The error of a vertex with a step is among the records, unless its step is shown as cached. -/
def ErrorShown (stepOf : String → Option Nat) (v : Vertex) (records : List String) : Prop :=
  ∀ step, stepOf v.digest = some step → v.error ≠ "" →
    stepRecord step (errorLine v.error) ∈ records ∨
      v.cached = true ∧ stepRecord step "CACHED" ∈ records

theorem ErrorShown.mono {v : Vertex} (h : ErrorShown stepOf v records) (hsub : records ⊆ more) :
    ErrorShown stepOf v more :=
  fun step hstep herror => (h step hstep herror).imp (@hsub _) (And.imp_right (@hsub _))

/-- Things that are shown one after the other are all shown. -/
theorem foldl_adds {α : Type} {f : Transcript → α → Transcript} {P : α → List String → Prop}
    (hmono : ∀ x records more, P x records → records ⊆ more → P x more)
    (hf : ∀ t x, t.Plain → ∃ records, Adds t records (f t x) ∧ P x records)
    (h : t.Plain) (xs : List α) :
    ∃ records, Adds t records (xs.foldl f t) ∧ ∀ x ∈ xs, P x records := by
  induction xs generalizing t with
  | nil => exact ⟨[], .refl h, nofun⟩
  | cons x xs ih =>
    obtain ⟨first, hfirst, hx⟩ := hf t x h
    obtain ⟨rest, hrest, hxs⟩ := ih hfirst.plain
    refine ⟨first ++ rest, hfirst.trans hrest, fun y hy => ?_⟩
    rcases List.mem_cons.mp hy with rfl | hy
    · exact hmono y first _ hx (List.subset_append_left _ _)
    · exact hmono y rest _ (hxs y hy) (List.subset_append_right _ _)

theorem foldl_grows {α : Type} {f : Transcript → α → Transcript}
    (hf : ∀ t x, t.Plain → ∃ records, Adds t records (f t x)) (h : t.Plain) (xs : List α) :
    ∃ records, Adds t records (xs.foldl f t) := by
  obtain ⟨records, hadds, _⟩ := foldl_adds (P := fun _ _ => True) (fun _ _ _ _ _ => trivial)
    (fun t x ht => (hf t x ht).imp fun _ hadds => ⟨hadds, trivial⟩) h xs
  exact ⟨records, hadds⟩

theorem showName_adds (h : t.Plain) (step : Nat) (name : String) :
    ∃ records, Adds t records (t.showName step name) := by
  unfold showName
  split
  · exact ⟨[], .refl h⟩
  · have hnoted : Plain { t with announced := t.announced ++ [step] } := ⟨h.color, h.room, h.failed⟩
    obtain ⟨hplain, hwritten⟩ := Adds.stepLine hnoted step (paint t.color .bold name)
    exact ⟨_, hplain, hwritten⟩

theorem showEnd_adds (h : t.Plain) (step : Nat) (v : Vertex) :
    ∃ records, Adds t records (t.showEnd step v) ∧ (v.error ≠ "" →
      stepRecord step (errorLine v.error) ∈ records ∨
        v.cached = true ∧ stepRecord step "CACHED" ∈ records) := by
  unfold showEnd
  simp only [h.color, paint, Bool.false_eq_true, if_false]
  split
  · rename_i hcached
    have hnoted := Adds.noteEnd h step
    refine ⟨_, hnoted.trans (.stepLine hnoted.plain step "CACHED"), fun _ => Or.inr ⟨hcached.1, ?_⟩⟩
    exact List.mem_append_right _ List.mem_cons_self
  · split
    · exact ⟨_, .stepLine h step (errorLine v.error), fun _ => Or.inl List.mem_cons_self⟩
    · rename_i hnone
      split
      · split
        · exact ⟨[], .refl h, fun herror => absurd herror hnone⟩
        · have hnoted := Adds.noteEnd h step
          have hread := hnoted.trans (.noteReading hnoted.plain)
          exact ⟨_, hread.trans (.stepLine hread.plain step _), fun herror => absurd herror hnone⟩
      · exact ⟨[], .noteOpen h step, fun herror => absurd herror hnone⟩

theorem showVertex_adds (stepOf : String → Option Nat) (h : t.Plain) (v : Vertex) :
    ∃ records, Adds t records (showVertex stepOf t v) ∧ ErrorShown stepOf v records := by
  unfold showVertex ErrorShown
  cases stepOf v.digest with
  | none => exact ⟨[], .refl h, nofun⟩
  | some step =>
    obtain ⟨name, hname⟩ := showName_adds h step v.name
    obtain ⟨last, hlast, hshown⟩ := showEnd_adds hname.plain step v
    have hsub : last ⊆ name ++ last := List.subset_append_right _ _
    refine ⟨name ++ last, hname.trans hlast, ?_⟩
    rintro _ ⟨⟩ herror
    exact (hshown herror).imp (@hsub _) (And.imp_right (@hsub _))

theorem showStatus_adds (stepOf : String → Option Nat) (h : t.Plain) (c : VertexStatus) :
    ∃ records, Adds t records (showStatus stepOf t c) := by
  unfold showStatus
  split
  · split
    · exact ⟨_, .stepLine h _ _⟩
    · exact ⟨[], .refl h⟩
  · exact ⟨[], .refl h⟩

theorem showLog_adds (stepOf : String → Option Nat) (h : t.Plain) (l : VertexLog) :
    ∃ records, Adds t records (showLog stepOf t l) := by
  unfold showLog
  split
  · have hread := Adds.noteReading h
    obtain ⟨records, hrecords⟩ := foldl_grows (fun u line hu => ⟨_, .stepLine hu _ _⟩) hread.plain _
    exact ⟨_, hread.trans hrecords⟩
  · exact ⟨[], .refl h⟩

theorem shownVertices_perm (vertices : List Vertex) : (shownVertices vertices).Perm vertices := by
  unfold shownVertices
  split
  · exact orderVertices_perm ‹_›
  · exact .refl _

theorem mem_shownVertices {vertices : List Vertex} {v : Vertex} :
    v ∈ shownVertices vertices ↔ v ∈ vertices :=
  (shownVertices_perm vertices).mem_iff

/-- Of a batch every error of a record with a step is shown, unless the step is shown as cached. -/
theorem showBatch_adds (stepOf : String → Option Nat) (h : t.Plain) (b : Batch) :
    ∃ records, Adds t records (t.showBatch stepOf b) ∧
      ∀ v ∈ b.vertices, ErrorShown stepOf v records := by
  obtain ⟨vertices, hvertices, hshown⟩ := foldl_adds (P := ErrorShown stepOf)
    (fun _ _ _ => ErrorShown.mono) (fun _ v hu => showVertex_adds stepOf hu v) h
    (shownVertices b.vertices)
  obtain ⟨statuses, hstatuses⟩ := foldl_grows (f := showStatus stepOf)
    (fun _ c hu => showStatus_adds stepOf hu c) hvertices.plain b.statuses
  obtain ⟨logs, hlogs⟩ := foldl_grows (f := showLog stepOf)
    (fun _ l hu => showLog_adds stepOf hu l) hstatuses.plain b.logs
  refine ⟨vertices ++ (statuses ++ logs), hvertices.trans (hstatuses.trans hlogs), ?_⟩
  intro v hv
  exact (hshown v (mem_shownVertices.mpr hv)).mono (List.subset_append_left _ _)

end Batches

end BuildProgress.Transcript
