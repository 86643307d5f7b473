import BuildProgress.Proofs.Tracer.Effect

/-!
# A batch that comes again

After a batch was accepted whose records are of different vertices, the tables say of each vertex
what its record says: `Agrees`. A batch that agrees with the tables starts and finishes nothing, so
that only its reports are told when it comes again.
-/

namespace BuildProgress.Tracer

set_option autoImplicit false

variable {handler : Handler} {s u u₁ u₂ : Tracer × Delivery} {t : Tracer} {batch : Batch}
  {vertices ordered : List Vertex} {v : Vertex}

/-- The tables say of each vertex what its record says. -/
structure Agrees (t : Tracer) (vertices : List Vertex) : Prop where
  numbered : ∀ v ∈ vertices, v.isSeen = true → v.digest ∈ t.numbered
  finished : ∀ v ∈ vertices, v.digest ∈ t.finished ↔ v.isCompleted = true

namespace Agrees

theorem announce (h : Agrees t vertices) (hv : v ∈ vertices) (d : Delivery) :
    announce handler v (t, d) = (.ok (), (t, d)) := by
  rcases announce_cases handler v t d with ⟨hnone, hseen, _⟩ | ⟨_, _, hrun⟩ |
    ⟨_, _, hrunning, hin, _⟩ | ⟨_, _, _, hrun⟩
  · exact absurd (h.numbered v hv hseen) (step?_eq_none_iff.mp hnone)
  · exact hrun
  · rw [h.finished v hv, hrunning] at hin
    cases hin
  · exact hrun

theorem conclude (h : Agrees t vertices) (hv : v ∈ vertices) (herror : v.error = "")
    (d : Delivery) : conclude handler v (t, d) = (.ok (), (t, d)) := by
  rcases conclude_cases handler v t d with ⟨hfails, _⟩ | ⟨_, _, hrun⟩ |
    ⟨_, hcompleted, hnot, _, _⟩ | ⟨_, _, hcompleted, hnot, _, _⟩
  · exact absurd herror hfails
  · exact hrun
  · exact absurd ((h.finished v hv).mpr hcompleted) hnot
  · exact absurd ((h.finished v hv).mpr hcompleted) hnot

/-- A batch that agrees with the tables tells its reports and nothing else. -/
theorem trace (h : Agrees s.1 ordered) (hready : Ready s) (hgoes : handler.GoesOn)
    (horder : orderVertices batch.vertices = .ok ordered) (hsound : ∀ v ∈ ordered, v.error = "")
    (hknown : ∀ r ∈ batch.reports, r.vertex ∈ s.1.numbered) :
    Action.Ends (trace handler batch) s (fun _ => Reported s batch.reports) (fun _ _ => False) := by
  have hannounced : Action.forEach (Tracer.announce handler) ordered s = (.ok (), s) :=
    Action.forEach_idle fun v hv => h.announce hv s.2
  rw [Action.Ends, trace_passes handler horder]
  apply Action.Ends.bind
  apply Action.Ends.of_ok hannounced
  apply Action.Ends.bind
  apply (hready.reportAll hgoes batch.reports).mono
  · intro _ u hreported
    have hconcluded : Action.forEach (Tracer.conclude handler) ordered u = (.ok (), u) := by
      apply Action.forEach_idle
      intro v hv
      rw [← hreported.same] at h
      exact h.conclude hv (hsound v hv) u.2
    exact .of_ok hconcluded hreported
  · rintro e u ⟨before, r, later, heq, _, hnot, _⟩
    refine absurd (hknown r ?_) hnot
    rw [heq]
    exact List.mem_append_right _ List.mem_cons_self

end Agrees

/-- After a batch whose records are of different vertices, the tables agree with it. -/
theorem Closed.agrees (hopened : Opened s ordered u₁) (hsame : u₂.1 = u₁.1)
    (hclosed : Closed u₂ ordered u) (hdistinct : (ordered.map (·.digest)).Nodup) :
    Agrees u.1 ordered := by
  refine ⟨fun v hv hseen => ?_, fun v hv => ?_⟩
  · rw [hclosed.numbered, hsame, hopened.numbered]
    exact Or.inr ⟨v, hv, rfl, hseen⟩
  · rw [hclosed.finished, hsame, hopened.finished]
    constructor
    · rintro (⟨_, hall⟩ | ⟨w, hw, hdigest, hcompleted⟩)
      · exact hall v hv rfl
      · rwa [List.inj_on_of_nodup_map hdistinct hw hv hdigest] at hcompleted
    · exact fun hcompleted => Or.inr ⟨v, hv, rfl, hcompleted⟩

/-- Let delivery go on and the handler not stop. If a batch whose records are of different vertices
is accepted, it is accepted once more when it comes again; then it tells its reports as it told them
the first time, starts and finishes nothing, and leaves the tables as they are. -/
theorem batch_repeated (hgoes : handler.GoesOn) (batches : List Batch)
    (hopen : (after handler batches).2.phase = .receiving) (batch : Batch)
    (hdistinct : (batch.vertices.map (·.digest)).Nodup)
    (haccepted : (trace handler batch (after handler batches)).1 = .ok ()) :
    let now := after handler batches
    let once := (trace handler batch now).2
    let twice := (trace handler batch once).2
    let reported := once.1.reportEvents batch.reports
    (trace handler batch once).1 = .ok () ∧ twice.1 = once.1 ∧
      twice.2.history = once.2.history ++ reported ∧
      (∀ event ∈ reported, event.kind ≠ .stepStarting ∧ event.kind ≠ .stepFinished) ∧
      ∃ starts finishes, once.2.history = now.2.history ++ (starts ++ (reported ++ finishes)) ∧
        (∀ event ∈ starts, event.kind = .stepStarting) ∧
        ∀ event ∈ finishes, event.kind = .stepFinished := by
  intro now once twice reported
  have horderly := Orderly.after handler batches
  have hready : Ready now := horderly.ready hopen
  have hfinished : now.1.finished ⊆ now.1.numbered := (horderly.live hopen).finished_numbered
  have hacyclic : Acyclic (entries batch.vertices) := by
    by_contra hcyclic
    obtain ⟨_, herror⟩ : ∃ fault, (trace handler batch now).1 = .error (.contractViolation fault) :=
      (trace_of_cyclic hcyclic).1
    cases haccepted.symm.trans herror
  obtain ⟨ordered, horder⟩ := exists_orderVertices_iff.mpr hacyclic
  have hordered : (ordered.map (·.digest)).Nodup :=
    (((orderVertices_perm horder).map _).nodup_iff).mpr hdistinct
  have hfirst : trace handler batch now = (.ok (), once) := Prod.ext haccepted rfl
  obtain ⟨u₁, u₂, hopened, hreported, hclosed⟩ :=
    (hready.traces hgoes hfinished horder).good_of_run hfirst
  have hsame : once.1.numbered = u₁.1.numbered := by
    rw [hclosed.numbered, hreported.same]
  have hagrees : Agrees once.1 ordered := hclosed.agrees hopened hreported.same hordered
  have hknown (r : Report) (hr : r ∈ batch.reports) : r.vertex ∈ once.1.numbered := by
    rw [hsame]
    exact hreported.known r.vertex (List.mem_map_of_mem hr)
  obtain ⟨_, u, hagain, hrepeated⟩ :=
    (hagrees.trace hclosed.ready hgoes horder hclosed.sound hknown).exists_run
  have htwice : twice = u := congrArg Prod.snd hagain
  rw [htwice]
  obtain ⟨starts, hstarts, hstarting⟩ := hopened.told
  obtain ⟨finishes, hfinishes, _, hfinishing⟩ := hclosed.told
  refine ⟨congrArg Prod.fst hagain, hrepeated.same, hrepeated.told, fun _ => reportEvents_kind,
    starts, finishes, ?_, hstarting, fun event hin => ?_⟩
  · rw [hfinishes, hreported.told, hstarts, ← reportEvents_congr hsame]
    simp only [List.append_assoc, reported]
  · obtain ⟨_, _, rfl, _⟩ := (hfinishing event).mp hin
    rfl

/-- A batch that restarts one step and finishes another comes again. -/
theorem batch_repeated_restart :
    let earlier : Batch := { vertices := [{ digest := "a", completed := some ⟨1, 0⟩ }] }
    let batch : Batch := {
      vertices := [{ digest := "a" }, { digest := "b", completed := some ⟨2, 0⟩ }]
      logs := [{ vertex := "b" }] }
    let now := after .quiet [earlier]
    let once := (trace .quiet batch now).2
    let twice := (trace .quiet batch once).2
    now.2.phase = .receiving ∧ (batch.vertices.map (·.digest)).Nodup ∧
      (trace .quiet batch now).1 = .ok () ∧
      once.2.history = now.2.history ++
        [.stepStarting 1 "", .stepStarting 2 "", .stepOutput 2 "", .stepFinished 2] ∧
      (trace .quiet batch once).1 = .ok () ∧ twice.1 = once.1 ∧
      twice.2.history = once.2.history ++ [.stepOutput 2 ""] := by
  intro earlier batch now once twice
  have hopen : now.2.phase = .receiving := by decide
  have hdistinct : (batch.vertices.map (·.digest)).Nodup := by decide
  have haccepted : (trace .quiet batch now).1 = .ok () := by decide +kernel
  have hreported : once.1.reportEvents batch.reports = [.stepOutput 2 ""] := by decide +kernel
  have hfirst : once.2.history = now.2.history ++
      [.stepStarting 1 "", .stepStarting 2 "", .stepOutput 2 "", .stepFinished 2] := by decide +kernel
  obtain ⟨hagain, hsame, htold, _⟩ :=
    batch_repeated (fun _ _ => rfl) [earlier] hopen batch hdistinct haccepted
  refine ⟨hopen, hdistinct, haccepted, hfirst, ?_⟩
  rw [← hreported]
  dsimp only [twice, once, now]
  exact ⟨hagain, hsame, htold⟩

end BuildProgress.Tracer
