import BuildProgress.Proofs.Ends
import BuildProgress.Proofs.Tracer.Trace

/-!
# The verdict on a batch

What becomes of a batch can be told beforehand, from the digests that have a step: it is refused if
its inputs have a cycle or if a counter or a chunk of output belongs to a vertex without a step, and
otherwise it fails if one of its records has an error. The tracer comes to this verdict as long as
delivery goes on and the handler does not stop.
-/

namespace BuildProgress

set_option autoImplicit false

def Vertex.isSeen (v : Vertex) : Bool :=
  v.isStarted || v.isCompleted

/-- The error of the first record that has one. -/
def failing? (vertices : List Vertex) : Option String :=
  (vertices.find? (·.error ≠ "")).map (·.error)

namespace Batch

/-- The digests that the counters and the chunks of output belong to. -/
def mentions (b : Batch) : List String :=
  b.statuses.map (·.vertex) ++ b.logs.map (·.vertex)

/-- The first error of a record, in the order in which records are processed. -/
def failure? (b : Batch) : Option String :=
  match orderVertices b.vertices with
  | .ok ordered => failing? ordered
  | .error _ => none

end Batch

namespace Tracer

/-- The vertex has a step, or a record of the batch gives it one. -/
def Knows (t : Tracer) (batch : Batch) (digest : String) : Prop :=
  digest ∈ t.numbered ∨ ∃ v ∈ batch.vertices, v.digest = digest ∧ v.isSeen = true

instance (t : Tracer) (batch : Batch) (digest : String) : Decidable (t.Knows batch digest) :=
  inferInstanceAs (Decidable (_ ∨ _))

def unknown (digest : String) : BuildError :=
  .contractViolation (.unknownVertex digest)

/-- Why a batch is refused, if it is. -/
def refusal? (t : Tracer) (batch : Batch) : Option BuildError :=
  match orderVertices batch.vertices with
  | .error e => some e
  | .ok _ => (batch.mentions.find? fun digest => ¬ t.Knows batch digest).map unknown

variable {handler : Handler} {t t' : Tracer} {d d' : Delivery} {s : Tracer × Delivery}
  {event : Event}

theorem refusal?_ne_buildFailed {batch : Batch} {e : BuildError} (h : t.refusal? batch = some e)
    (message : String) : e ≠ .buildFailed message := by
  rintro rfl
  unfold refusal? at h
  split at h
  · rename_i e horder
    obtain ⟨digests, rfl⟩ := orderVertices_error horder
    cases h
  · obtain ⟨digest, _, heq⟩ := Option.map_eq_some_iff.mp h
    cases heq

/-- Delivery goes on, and every step that has a number was started. -/
structure Ready (s : Tracer × Delivery) : Prop where
  opened : s.2.phase = .receiving
  started : ∀ digest step, s.1.step? digest = some step → step ∈ s.2.started

/-- The tracer after it has announced these records. -/
structure Announced (s : Tracer × Delivery) (vertices : List Vertex) (u : Tracer × Delivery) :
    Prop where
  ready : Ready u
  numbered : ∀ digest, digest ∈ u.1.numbered ↔
    digest ∈ s.1.numbered ∨ ∃ v ∈ vertices, v.digest = digest ∧ v.isSeen = true

/-- The tracer after counters or chunks of output that belong to these digests. -/
structure Mentioned (s : Tracer × Delivery) (digests : List String) (u : Tracer × Delivery) :
    Prop where
  ready : Ready u
  same : u.1 = s.1
  known : ∀ digest ∈ digests, digest ∈ s.1.numbered

/-- The tracer after it has concluded these records. -/
structure Concluded (s : Tracer × Delivery) (vertices : List Vertex) (u : Tracer × Delivery) :
    Prop where
  ready : Ready u
  numbered : u.1.numbered = s.1.numbered
  sound : ∀ v ∈ vertices, v.error = ""

section Appending

variable {u u' : Tracer × Delivery}

theorem Announced.append {done : List Vertex} {v : Vertex} (h : Announced s done u)
    (h' : Announced u [v] u') : Announced s (done ++ [v]) u' where
  ready := h'.ready
  numbered := fun digest => by
    rw [h'.numbered, h.numbered, or_assoc]
    simp only [List.mem_append, or_and_right, exists_or]

theorem Mentioned.append {done : List String} {digest : String} (h : Mentioned s done u)
    (h' : Mentioned u [digest] u') : Mentioned s (done ++ [digest]) u' where
  ready := h'.ready
  same := h'.same.trans h.same
  known := by
    intro other hother
    rcases List.mem_append.mp hother with hother | hother
    · exact h.known other hother
    · rw [← h.same]
      exact h'.known other hother

theorem Mentioned.find?_eq_none {digests : List String} (h : Mentioned s digests u) :
    digests.find? (fun digest => digest ∉ s.1.numbered) = none := by
  rw [List.find?_eq_none]
  simpa using h.known

theorem Concluded.failing?_eq_none {vertices : List Vertex} (h : Concluded s vertices u) :
    failing? vertices = none := by
  rw [failing?, Option.map_eq_none_iff, List.find?_eq_none]
  simpa using h.sound

theorem Concluded.append {done : List Vertex} {v : Vertex} (h : Concluded s done u)
    (h' : Concluded u [v] u') : Concluded s (done ++ [v]) u' where
  ready := h'.ready
  numbered := h'.numbered.trans h.numbered
  sound := by
    intro w hw
    rcases List.mem_append.mp hw with hw | hw
    · exact h.sound w hw
    · exact h'.sound w hw

end Appending

namespace Ready

theorem delivers (h : Ready (t, d)) (hmove : Move t t' event) : d.Delivers event := by
  refine ⟨h.opened, ?_⟩
  rintro ⟨step, rfl, hnot⟩
  cases hmove with
  | progress _ _ _ finishes => exact finishes rfl
  | finish known _ => exact hnot (h.started _ step known)

theorem move (h : Ready (t, d)) (hmove : Move t t' event) (hfailure : event.isFailure = false)
    (hpasses : d.Passes event d') : Ready (t', d') := by
  refine ⟨by rw [hpasses.phase, hfailure]; rfl, ?_⟩
  intro other n hn
  rw [hpasses.started]
  cases hmove with
  | @start digest name fresh =>
    by_cases hother : other = digest
    · subst hother
      have hn' : (t.number other).step? other = some n := hn
      rw [step?_number_self fresh] at hn'
      obtain rfl := Option.some.inj hn'
      exact List.mem_insert_self
    · have hn' : (t.number digest).step? other = some n := hn
      rw [step?_number_of_ne hother] at hn'
      exact Delivery.mem_started_noteStart (h.started other n hn')
  | _ => exact Delivery.mem_started_noteStart (h.started other n hn)

theorem report (h : Ready (t, d)) (hgoes : handler.GoesOn) (hmove : Move t t' event)
    (hfailure : event.isFailure = false) :
    ∃ d', carryOut handler t' event d = (.ok (), (t', d')) ∧ Ready (t', d') := by
  obtain ⟨d', hemit, hpasses⟩ := Delivery.emit_passes hgoes (h.delivers hmove)
  refine ⟨d', ?_, h.move hmove hfailure hpasses⟩
  simp only [carryOut, hemit]

theorem announce (h : Ready s) (hgoes : handler.GoesOn) (v : Vertex) :
    Action.Ends (announce handler v) s (fun _ => Announced s [v]) (fun _ _ => False) := by
  obtain ⟨t, d⟩ := s
  rcases announce_cases handler v t d with ⟨hnone, hseen, hrun⟩ | ⟨hnone, hunseen, hrun⟩ |
    ⟨step, hstep, _, hin, hrun⟩ | ⟨step, hstep, _, hrun⟩
  · obtain ⟨d', hcarried, hready⟩ := h.report hgoes (.start v.name hnone) rfl
    refine .of_ok (hrun.trans hcarried) ⟨hready, fun digest => ?_⟩
    have hseen' : v.isSeen = true := hseen
    simp only [number, List.mem_append, List.mem_singleton, exists_eq_left, hseen', and_true,
      @eq_comm _ digest]
  · refine .of_ok hrun ⟨h, fun digest => ?_⟩
    have hunseen' : v.isSeen = false := hunseen
    simp [hunseen']
  · obtain ⟨d', hcarried, hready⟩ := h.report hgoes (.restart v.name hstep hin) rfl
    refine .of_ok (hrun.trans hcarried) ⟨hready, fun digest => ?_⟩
    have hknown := (step?_eq_some_iff.mp hstep).1
    simp only [List.mem_singleton, exists_eq_left]
    exact ⟨Or.inl, fun hor => hor.elim id fun hnew => hnew.1 ▸ hknown⟩
  · refine .of_ok hrun ⟨h, fun digest => ?_⟩
    have hknown := (step?_eq_some_iff.mp hstep).1
    simp only [List.mem_singleton, exists_eq_left]
    exact ⟨Or.inl, fun hor => hor.elim id fun hnew => hnew.1 ▸ hknown⟩

theorem announceAll (h : Ready s) (hgoes : handler.GoesOn) (vertices : List Vertex) :
    Action.Ends (Action.forEach (Tracer.announce handler) vertices) s
      (fun _ => Announced s vertices) (fun _ _ => False) := by
  have hstart : Announced s [] s := ⟨h, by simp⟩
  apply Action.Ends.forEach (I := Announced s) _ hstart
  rintro done v rest - u hu
  exact (hu.ready.announce hgoes v).safely fun _ _ hv => hu.append hv

theorem findStep (s : Tracer × Delivery) (digest : String) : Action.Ends (findStep digest) s
    (fun step u => u = s ∧ s.1.step? digest = some step)
    (fun e u => u = s ∧ digest ∉ s.1.numbered ∧ e = unknown digest) := by
  obtain ⟨t, d⟩ := s
  have hrun := findStep_run digest t d
  cases hstep : t.step? digest with
  | none =>
    rw [hstep] at hrun
    exact .of_error hrun ⟨rfl, step?_eq_none_iff.mp hstep, rfl⟩
  | some step =>
    rw [hstep] at hrun
    exact .of_ok hrun ⟨rfl, rfl⟩

/-- Something is told of a step of which nothing but its number matters. -/
theorem progress (h : Ready s) (hgoes : handler.GoesOn) {digest : String} {step : Nat}
    (known : s.1.step? digest = some step) {event : Event} (about : event.step? = some step)
    (starts : event.kind ≠ .stepStarting) (finishes : event.kind ≠ .stepFinished) :
    Action.Ends (BuildProgress.report handler event) s
      (fun _ => Mentioned s [digest]) (fun _ _ => False) := by
  obtain ⟨t, d⟩ := s
  have hfailure : event.isFailure = false := by
    cases event with
    | buildFailed _ => cases about
    | _ => rfl
  obtain ⟨d', hcarried, hready⟩ :=
    h.report hgoes (.progress known about starts finishes) hfailure
  have hknown : digest ∈ t.numbered := (step?_eq_some_iff.mp known).1
  exact .of_ok hcarried ⟨hready, rfl, by simpa using hknown⟩

theorem traceStatus (h : Ready s) (hgoes : handler.GoesOn) (c : VertexStatus) :
    Action.Ends (traceStatus handler c) s (fun _ => Mentioned s [c.vertex])
      (fun e u => u = s ∧ c.vertex ∉ s.1.numbered ∧ e = unknown c.vertex) := by
  unfold Tracer.traceStatus
  apply Action.Ends.bind
  apply (findStep s c.vertex).mono_good
  rintro step u ⟨rfl, known⟩
  cases hevent : statusEvent? step c with
  | none =>
    have hknown : c.vertex ∈ u.1.numbered := (step?_eq_some_iff.mp known).1
    exact .of_ok rfl ⟨h, rfl, by simpa using hknown⟩
  | some event =>
    obtain ⟨about, starts, finishes⟩ := statusEvent?_progress hevent
    exact (h.progress hgoes known about starts finishes).safely fun _ _ hgood => hgood

theorem traceLog (h : Ready s) (hgoes : handler.GoesOn) (l : VertexLog) :
    Action.Ends (traceLog handler l) s (fun _ => Mentioned s [l.vertex])
      (fun e u => u = s ∧ l.vertex ∉ s.1.numbered ∧ e = unknown l.vertex) := by
  unfold Tracer.traceLog
  apply Action.Ends.bind
  apply (findStep s l.vertex).mono_good
  rintro step u ⟨rfl, known⟩
  have about : (logEvent step l).step? = some step := rfl
  exact (h.progress hgoes known about nofun nofun).safely fun _ _ hgood => hgood

/-- The pass over the counters or over the chunks of output ends at the first one that belongs to a
vertex without a step. -/
theorem mentionAll {α : Type} {f : α → Reporting Tracer Unit} (vertexOf : α → String)
    (hf : ∀ x s, Ready s → Action.Ends (f x) s (fun _ => Mentioned s [vertexOf x])
      (fun e u => u = s ∧ vertexOf x ∉ s.1.numbered ∧ e = unknown (vertexOf x)))
    (h : Ready s) (xs : List α) : Action.Ends (Action.forEach f xs) s
      (fun _ => Mentioned s (xs.map vertexOf))
      (fun e u => Ready u ∧ ∃ digest, e = unknown digest ∧
        (xs.map vertexOf).find? (fun digest => digest ∉ s.1.numbered) = some digest) := by
  have hstart : Mentioned s ([].map vertexOf) s := ⟨h, rfl, by simp⟩
  apply Action.Ends.forEach (I := fun done => Mentioned s (done.map vertexOf)) _ hstart
  rintro done x rest rfl u hu
  apply (hf x u hu.ready).mono
  · intro _ u' hx
    rw [List.map_append, List.map_singleton]
    exact hu.append hx
  · rintro e u' ⟨rfl, hnot, rfl⟩
    refine ⟨hu.ready, vertexOf x, rfl, List.find?_eq_some_iff_append.mpr ⟨?_, ?_⟩⟩
    · rw [← hu.same]
      simpa using hnot
    · refine ⟨done.map vertexOf, rest.map vertexOf, by simp, ?_⟩
      simpa using hu.known

theorem conclude (h : Ready s) (hgoes : handler.GoesOn) (v : Vertex)
    (hknown : v.isCompleted = true → v.digest ∈ s.1.numbered) :
    Action.Ends (conclude handler v) s (fun _ => Concluded s [v])
      (fun e u => v.error ≠ "" ∧ e = .buildFailed v.error ∧ u.2.ToldFailure v.error) := by
  obtain ⟨t, d⟩ := s
  rcases conclude_cases handler v t d with ⟨herror, hrun⟩ | ⟨herror, _, hrun⟩ |
    ⟨_, hcompleted, _, hnone, _⟩ | ⟨step, herror, _, hnot, hstep, hrun⟩
  · have hfailure : Action.Ends (reportFailure handler v.error) (t, d) (fun _ _ => False)
        (fun e u => e = .buildFailed v.error ∧ u.1 = t ∧ u.2.ToldFailure v.error) :=
      reportFailure_ends hgoes h.opened v.error
    rcases hreported : reportFailure handler v.error (t, d) with ⟨e | a, u⟩
    · obtain ⟨heq, _, htold⟩ := hfailure.bad_of_run hreported
      exact .of_error (hrun.trans hreported) ⟨herror, heq, htold⟩
    · exact (hfailure.good_of_run hreported).elim
  · exact .of_ok hrun ⟨h, rfl, by simpa using herror⟩
  · exact absurd (hknown hcompleted) (step?_eq_none_iff.mp hnone)
  · obtain ⟨d', hcarried, hready⟩ := h.report hgoes (.finish hstep hnot) rfl
    exact .of_ok (hrun.trans hcarried) ⟨hready, rfl, by simpa using herror⟩

/-- The last pass ends at the first record that has an error. -/
theorem concludeAll (h : Ready s) (hgoes : handler.GoesOn) (vertices : List Vertex)
    (hknown : ∀ v ∈ vertices, v.isCompleted = true → v.digest ∈ s.1.numbered) :
    Action.Ends (Action.forEach (Tracer.conclude handler) vertices) s
      (fun _ => Concluded s vertices)
      (fun e u => ∃ message, failing? vertices = some message ∧ e = .buildFailed message ∧
        u.2.ToldFailure message) := by
  have hstart : Concluded s [] s := ⟨h, rfl, by simp⟩
  apply Action.Ends.forEach (I := Concluded s) _ hstart
  rintro done v rest rfl u hu
  have hv : v.isCompleted = true → v.digest ∈ u.1.numbered := by
    rw [hu.numbered]
    exact hknown v (List.mem_append_right _ List.mem_cons_self)
  apply (hu.ready.conclude hgoes v hv).mono
  · exact fun _ _ hconcluded => hu.append hconcluded
  · rintro e u' ⟨herror, rfl, htold⟩
    refine ⟨v.error, Option.map_eq_some_iff.mpr ⟨v, ?_, rfl⟩, rfl, htold⟩
    apply List.find?_eq_some_iff_append.mpr
    refine ⟨by simpa using herror, done, rest, rfl, ?_⟩
    simpa using hu.sound

/-- The tracer comes to the verdict on the batch, and is ready for the next one unless the build has
failed. -/
theorem trace (h : Ready s) (hgoes : handler.GoesOn) (batch : Batch) :
    Action.Ends (trace handler batch) s
      (fun _ u => Ready u ∧ judge (s.1.refusal? batch) batch.failure? = .ok ())
      (fun e u => Delivery.Settled (Ready u) u.2 e ∧
        judge (s.1.refusal? batch) batch.failure? = .error e) := by
  unfold Tracer.trace
  apply Action.Ends.bind
  cases horder : orderVertices batch.vertices with
  | error e =>
    have hrefusal : s.1.refusal? batch = some e := by simp [refusal?, horder]
    exact .of_error rfl ⟨.of_ne h (refusal?_ne_buildFailed hrefusal), by simp [hrefusal, judge]⟩
  | ok ordered =>
    have hfailure : batch.failure? = failing? ordered := by simp [Batch.failure?, horder]
    have hmem {v : Vertex} : v ∈ ordered ↔ v ∈ batch.vertices := (orderVertices_perm horder).mem_iff
    apply Action.Ends.of_ok rfl
    apply Action.Ends.bind
    apply (h.announceAll hgoes ordered).safely
    intro _ u hu
    have hknows (digest : String) : digest ∈ u.1.numbered ↔ s.1.Knows batch digest := by
      rw [hu.numbered, Knows]
      simp only [hmem]
    have hrefusal : s.1.refusal? batch =
        (((batch.statuses.map (·.vertex)).find? fun digest => digest ∉ u.1.numbered).or
          ((batch.logs.map (·.vertex)).find? fun digest => digest ∉ u.1.numbered)).map unknown := by
      simp only [refusal?, horder, Batch.mentions, List.find?_append, hknows]
    apply Action.Ends.bind
    apply (mentionAll (·.vertex) (fun c _ hready => hready.traceStatus hgoes c) hu.ready
      batch.statuses).mono
    · intro _ u₁ hu₁
      rw [hu₁.find?_eq_none, Option.none_or] at hrefusal
      apply Action.Ends.bind
      apply (mentionAll (·.vertex) (fun l _ hready => hready.traceLog hgoes l) hu₁.ready
        batch.logs).mono
      · intro _ u₂ hu₂
        have hlogs := hu₂.find?_eq_none
        rw [hu₁.same] at hlogs
        rw [hlogs] at hrefusal
        have hknown : ∀ v ∈ ordered, v.isCompleted = true → v.digest ∈ u₂.1.numbered := by
          intro v hv hcompleted
          rw [hu₂.same, hu₁.same, hknows]
          exact Or.inr ⟨v, hmem.mp hv, rfl, by simp [Vertex.isSeen, hcompleted]⟩
        rw [hrefusal, hfailure]
        apply (hu₂.ready.concludeAll hgoes ordered hknown).mono
        · intro _ u₃ hu₃
          exact ⟨hu₃.ready, by simp [hu₃.failing?_eq_none, judge]⟩
        · rintro e u₃ ⟨message, hsome, rfl, htold⟩
          exact ⟨htold, by simp [hsome, judge]⟩
      · rintro e u₂ ⟨hready₂, digest, rfl, hlogs⟩
        rw [hu₁.same] at hlogs
        rw [hlogs] at hrefusal
        exact ⟨hready₂, by simp [hrefusal, judge]⟩
    · rintro e u₁ ⟨hready₁, digest, rfl, hstatuses⟩
      rw [hstatuses] at hrefusal
      exact ⟨hready₁, by simp [hrefusal, judge]⟩

end Ready

end Tracer

end BuildProgress
