import BuildProgress.Proofs.Graph.Earliest
import BuildProgress.Proofs.Tracer.Lifecycle
import BuildProgress.Proofs.Tracer.Verdict

/-!
# What a batch does

A batch goes through three passes: starts, reports and ends. A report is a counter or a chunk of
output. For each pass it is said what it tells and what it leaves in the tables, record by record;
`Opened`, `Reported` and `Closed` are the states between the passes. A batch that is refused or that
fails got through some of this and stopped at one record.
-/

namespace BuildProgress

set_option autoImplicit false

namespace Action

variable {ε σ α β : Type}

theorem forEach_map (f : β → Action ε σ Unit) (g : α → β) (xs : List α) :
    forEach f (xs.map g) = forEach (fun x => f (g x)) xs := by
  induction xs with
  | nil => rfl
  | cons x xs ih => rw [List.map_cons, forEach, forEach, ih]

/-- The second list is gone through after the first. -/
theorem forEach_append_bind (f : α → Action ε σ Unit) (xs ys : List α)
    (next : Unit → Action ε σ β) (s : σ) :
    (forEach f (xs ++ ys) >>= next) s =
      (forEach f xs >>= fun _ => forEach f ys >>= next) s := by
  rw [bind_run, bind_run, forEach_append]
  rcases forEach f xs s with ⟨_ | _, t⟩
  · rfl
  · exact (bind_run _ _ t).symm

/-- What leaves the state as it is for each item leaves it so for all. -/
theorem forEach_idle {f : α → Action ε σ Unit} {xs : List α} {s : σ}
    (h : ∀ x ∈ xs, f x s = (.ok (), s)) : forEach f xs s = (.ok (), s) := by
  induction xs with
  | nil => rfl
  | cons x xs ih =>
    rw [forEach_cons, h x List.mem_cons_self]
    exact ih fun y hy => h y (List.mem_cons_of_mem x hy)

end Action

/-- A counter or a chunk of output of a vertex. -/
inductive Report where
  | status (s : VertexStatus)
  | log (l : VertexLog)

namespace Report

def vertex : Report → String
  | status s => s.vertex
  | log l => l.vertex

/-- The event of a report of a step, if it has one. -/
def event? (step : Nat) : Report → Option Event
  | status s => Tracer.statusEvent? step s
  | log l => some (Tracer.logEvent step l)

end Report

def Batch.reports (b : Batch) : List Report :=
  b.statuses.map .status ++ b.logs.map .log

namespace Tracer

/-- The events of some reports, each under the step of its vertex. -/
def reportEvents (t : Tracer) (reports : List Report) : List Event :=
  reports.filterMap fun r => (t.step? r.vertex).bind r.event?

/-- These records complete a digest that was not completed, or that a record of the batch shows to
run again. -/
def CompletesAnew (t : Tracer) (batch : Batch) (records : List Vertex) (digest : String) : Prop :=
  (∃ v ∈ records, v.digest = digest ∧ v.isCompleted = true) ∧
    (digest ∈ t.finished → ∃ v ∈ batch.vertices, v.digest = digest ∧ v.isCompleted = false)

/-- What the last pass does with some records of a batch: each digest that they complete anew is
finished, once. -/
structure Finishes (before after : Tracer) (batch : Batch) (records : List Vertex)
    (finishes : List Event) : Prop where
  nodup : finishes.Nodup
  told : ∀ event, event ∈ finishes ↔ ∃ digest step, event = .stepFinished step ∧
    after.step? digest = some step ∧ before.CompletesAnew batch records digest
  finished : ∀ digest, digest ∈ after.finished ↔ before.CompletesAnew batch records digest ∨
    digest ∈ before.finished ∧ ∀ v ∈ batch.vertices, v.digest = digest → v.isCompleted = true

/-- How a batch ends whose inputs have no cycle, its records being processed in this order. -/
inductive Outcome (now : Tracer × Delivery) (batch : Batch) (ordered : List Vertex) :
    Except BuildError Unit → Tracer × Delivery → Prop where
  /-- A report belongs to an unknown vertex: nothing is told from there on. -/
  | refused {next : Tracer × Delivery} {starts : List Event} {before later : List Report}
      {r : Report} (starting : ∀ event ∈ starts, event.kind = .stepStarting)
      (first : batch.reports = before ++ r :: later)
      (known : ∀ q ∈ before, now.1.Knows batch q.vertex) (strange : ¬ now.1.Knows batch r.vertex)
      (told : next.2.history = now.2.history ++ (starts ++ next.1.reportEvents before)) :
      Outcome now batch ordered (.error (unknown r.vertex)) next
  /-- A record has an error: the records before it are concluded. -/
  | failed {next : Tracer × Delivery} {starts finishes : List Event} {sound later : List Vertex}
      {v : Vertex} (starting : ∀ event ∈ starts, event.kind = .stepStarting)
      (known : ∀ r ∈ batch.reports, now.1.Knows batch r.vertex)
      (first : ordered = sound ++ v :: later) (unfailing : ∀ w ∈ sound, w.error = "")
      (failing : v.error ≠ "") (ends : Finishes now.1 next.1 batch sound finishes)
      (told : next.2.history = now.2.history ++ (starts ++ (next.1.reportEvents batch.reports ++
        (finishes ++ [.buildFailed v.error])))) :
      Outcome now batch ordered (.error (.buildFailed v.error)) next
  | accepted {next : Tracer × Delivery} {starts finishes : List Event}
      (starting : ∀ event ∈ starts, event.kind = .stepStarting)
      (known : ∀ r ∈ batch.reports, now.1.Knows batch r.vertex)
      (unfailing : ∀ v ∈ ordered, v.error = "") (ends : Finishes now.1 next.1 batch ordered finishes)
      (told : next.2.history = now.2.history ++
        (starts ++ (next.1.reportEvents batch.reports ++ finishes))) :
      Outcome now batch ordered (.ok ()) next

variable {handler : Handler} {t t' : Tracer} {d : Delivery} {s u u' : Tracer × Delivery}
  {event : Event} {vertices done : List Vertex} {v : Vertex}

theorem step?_congr (h : t'.numbered = t.numbered) (digest : String) :
    t'.step? digest = t.step? digest := by
  rw [step?, h, step?]

theorem reportEvents_congr (h : t'.numbered = t.numbered) (reports : List Report) :
    t'.reportEvents reports = t.reportEvents reports := by
  simp only [reportEvents, step?_congr h]

theorem event?_progress {step : Nat} {r : Report} (h : r.event? step = some event) :
    event.step? = some step ∧ event.kind ≠ .stepStarting ∧ event.kind ≠ .stepFinished := by
  cases r with
  | status s => exact statusEvent?_progress h
  | log l =>
    obtain rfl := Option.some.inj h
    exact ⟨rfl, nofun, nofun⟩

theorem reportEvents_kind {reports : List Report} (h : event ∈ t.reportEvents reports) :
    event.kind ≠ .stepStarting ∧ event.kind ≠ .stepFinished := by
  obtain ⟨r, _, hr⟩ := List.mem_filterMap.mp h
  obtain ⟨step, _, hevent⟩ := Option.bind_eq_some_iff.mp hr
  exact (event?_progress hevent).2

def traceReport (handler : Handler) : Report → Reporting Tracer Unit
  | .status s => traceStatus handler s
  | .log l => traceLog handler l

theorem traceReport_run (handler : Handler) (r : Report) (t : Tracer) (d : Delivery) :
    traceReport handler r (t, d) = match t.step? r.vertex with
      | none => (.error (unknown r.vertex), (t, d))
      | some step => match r.event? step with
        | none => (.ok (), (t, d))
        | some event => carryOut handler t event d := by
  cases r with
  | status s =>
    change traceStatus handler s (t, d) = _
    unfold traceStatus
    rw [Action.bind_run, findStep_run]
    simp only [Report.vertex, Report.event?]
    cases t.step? s.vertex with
    | none => rfl
    | some step =>
      dsimp only
      cases statusEvent? step s <;> rfl
  | log l =>
    change traceLog handler l (t, d) = _
    unfold traceLog
    rw [Action.bind_run, findStep_run]
    simp only [Report.vertex, Report.event?]
    cases t.step? l.vertex <;> rfl

/-- A batch whose inputs have no cycle, in its three passes. -/
theorem trace_passes (handler : Handler) {batch : Batch} {ordered : List Vertex}
    (horder : orderVertices batch.vertices = .ok ordered) (s : Tracer × Delivery) :
    trace handler batch s = (do
      Action.forEach (announce handler) ordered
      Action.forEach (traceReport handler) batch.reports
      Action.forEach (conclude handler) ordered) s := by
  rw [trace_run, horder]
  dsimp only
  rw [Action.bind_run, Action.bind_run]
  rcases Action.forEach (announce handler) ordered s with ⟨_ | _, u⟩
  · rfl
  · dsimp only
    rw [Batch.reports, Action.forEach_append_bind, Action.forEach_map, Action.forEach_map]
    rfl

/-! ## Starts -/

/-- The tracer after it has announced these records. -/
structure Opened (s : Tracer × Delivery) (vertices : List Vertex) (u : Tracer × Delivery) : Prop
    extends Announced s vertices u where
  finished : ∀ digest, digest ∈ u.1.finished ↔
    digest ∈ s.1.finished ∧ ∀ v ∈ vertices, v.digest = digest → v.isCompleted = true
  told : ∃ starts, u.2.history = s.2.history ++ starts ∧ ∀ event ∈ starts, event.kind = .stepStarting

theorem Opened.append (h : Opened s done u) (h' : Opened u [v] u') :
    Opened s (done ++ [v]) u' := by
  refine ⟨h.toAnnounced.append h'.toAnnounced, fun digest => ?_, ?_⟩
  · rw [h'.finished, h.finished, and_assoc, List.forall_mem_append]
  · obtain ⟨starts, hstarts, hkind⟩ := h.told
    obtain ⟨starts', hstarts', hkind'⟩ := h'.told
    refine ⟨starts ++ starts', by rw [hstarts', hstarts, List.append_assoc], ?_⟩
    exact List.forall_mem_append.mpr ⟨hkind, hkind'⟩

namespace Ready

/-- What a move tells is told, and the tracer stays ready. -/
theorem tell (h : Ready (t, d)) (hgoes : handler.GoesOn) (hmove : Move t t' event)
    (hfailure : event.isFailure = false) : ∃ d', carryOut handler t' event d = (.ok (), (t', d')) ∧
      Ready (t', d') ∧ d'.history = d.history ++ [event] := by
  obtain ⟨d', hemit, hpasses⟩ := Delivery.emit_passes hgoes (h.delivers hmove)
  refine ⟨d', ?_, h.move hmove hfailure hpasses, hpasses.history⟩
  simp only [carryOut, hemit]

theorem opens (h : Ready s) (hgoes : handler.GoesOn) (hfinished : s.1.finished ⊆ s.1.numbered)
    (v : Vertex) :
    Action.Ends (Tracer.announce handler v) s (fun _ => Opened s [v]) (fun _ _ => False) := by
  have hannounced := h.announce hgoes v
  obtain ⟨t, d⟩ := s
  have hkept (hopen : v.isCompleted = true ∨ v.digest ∉ t.finished) (digest : String) :
      digest ∈ t.finished ↔
        digest ∈ t.finished ∧ ∀ w ∈ [v], w.digest = digest → w.isCompleted = true := by
    refine (and_iff_left_of_imp fun hin w hw hdigest => ?_).symm
    obtain rfl := List.mem_singleton.mp hw
    exact hopen.resolve_right fun hnot => hnot (hdigest ▸ hin)
  rcases announce_cases handler v t d with ⟨hnone, _, hrun⟩ | ⟨hnone, _, hrun⟩ |
    ⟨step, hstep, hrunning, hin, hrun⟩ | ⟨step, hstep, hopen, hrun⟩
  · obtain ⟨d', hcarried, _, hhistory⟩ := h.tell hgoes (.start v.name hnone) rfl
    have hrun := hrun.trans hcarried
    have hnot : v.digest ∉ t.finished := fun hin => step?_eq_none_iff.mp hnone (hfinished hin)
    exact .of_ok hrun ⟨hannounced.good_of_run hrun, hkept (Or.inr hnot), _, hhistory,
      by simp [Event.kind]⟩
  · have hnot : v.digest ∉ t.finished := fun hin => step?_eq_none_iff.mp hnone (hfinished hin)
    exact .of_ok hrun ⟨hannounced.good_of_run hrun, hkept (Or.inr hnot), [], by simp, by simp⟩
  · obtain ⟨d', hcarried, _, hhistory⟩ := h.tell hgoes (.restart v.name hstep hin) rfl
    have hrun := hrun.trans hcarried
    refine .of_ok hrun ⟨hannounced.good_of_run hrun, fun digest => ?_, _, hhistory,
      by simp [Event.kind]⟩
    simp only [mem_finished_reopen, List.mem_singleton, forall_eq, hrunning, Bool.false_eq_true,
      imp_false, ne_comm]
  · exact .of_ok hrun ⟨hannounced.good_of_run hrun, hkept hopen, [], by simp, by simp⟩

theorem openAll (h : Ready s) (hgoes : handler.GoesOn) (hfinished : s.1.finished ⊆ s.1.numbered)
    (vertices : List Vertex) : Action.Ends (Action.forEach (Tracer.announce handler) vertices) s
      (fun _ => Opened s vertices) (fun _ _ => False) := by
  have hstart : Opened s [] s := ⟨⟨h, by simp⟩, by simp, [], by simp, by simp⟩
  apply Action.Ends.forEach (I := Opened s) _ hstart
  rintro done v rest - u hu
  have hfinished' : u.1.finished ⊆ u.1.numbered := fun digest hin =>
    (hu.numbered digest).mpr (Or.inl (hfinished ((hu.finished digest).mp hin).1))
  exact (hu.ready.opens hgoes hfinished' v).safely fun _ _ hv => hu.append hv

end Ready

/-! ## Reports -/

/-- The tracer after these reports. -/
structure Reported (s : Tracer × Delivery) (reports : List Report) (u : Tracer × Delivery) : Prop
    extends Mentioned s (reports.map Report.vertex) u where
  told : u.2.history = s.2.history ++ s.1.reportEvents reports

theorem Reported.append {reports : List Report} {r : Report} (h : Reported s reports u)
    (h' : Reported u [r] u') : Reported s (reports ++ [r]) u' := by
  refine ⟨?_, ?_⟩
  · rw [List.map_append]
    exact h.toMentioned.append h'.toMentioned
  · rw [h'.told, h.told, h.same, List.append_assoc, reportEvents, reportEvents, reportEvents,
      List.filterMap_append]

namespace Ready

theorem reports (h : Ready s) (hgoes : handler.GoesOn) (r : Report) :
    Action.Ends (traceReport handler r) s (fun _ => Reported s [r])
      (fun e u => u = s ∧ r.vertex ∉ s.1.numbered ∧ e = unknown r.vertex) := by
  obtain ⟨t, d⟩ := s
  have hrun := traceReport_run handler r t d
  cases hstep : t.step? r.vertex with
  | none =>
    simp only [hstep] at hrun
    exact .of_error hrun ⟨rfl, step?_eq_none_iff.mp hstep, rfl⟩
  | some step =>
    have hknown : ∀ digest ∈ [r].map Report.vertex, digest ∈ t.numbered := by
      simpa using (step?_eq_some_iff.mp hstep).1
    cases hevent : r.event? step with
    | none =>
      simp only [hstep, hevent] at hrun
      exact .of_ok hrun ⟨⟨h, rfl, hknown⟩, by simp [reportEvents, hstep, hevent]⟩
    | some event =>
      simp only [hstep, hevent] at hrun
      obtain ⟨about, starts, finishes⟩ := event?_progress hevent
      have hfailure : event.isFailure = false := by
        cases event with
        | buildFailed _ => cases about
        | _ => rfl
      obtain ⟨d', hcarried, hready, hhistory⟩ :=
        h.tell hgoes (.progress hstep about starts finishes) hfailure
      refine .of_ok (hrun.trans hcarried) ⟨⟨hready, rfl, hknown⟩, hhistory.trans ?_⟩
      simp [reportEvents, hstep, hevent]

/-- The reports are told up to the first one whose vertex has no step. -/
theorem reportAll (h : Ready s) (hgoes : handler.GoesOn) (rs : List Report) :
    Action.Ends (Action.forEach (traceReport handler) rs) s (fun _ => Reported s rs)
      (fun e u => ∃ before r later, rs = before ++ r :: later ∧ Reported s before u ∧
        r.vertex ∉ s.1.numbered ∧ e = unknown r.vertex) := by
  have hstart : Reported s [] s := ⟨⟨h, rfl, by simp⟩, by simp [reportEvents]⟩
  apply Action.Ends.forEach (I := Reported s) _ hstart
  intro done r rest heq u hu
  apply (hu.ready.reports hgoes r).mono
  · exact fun _ _ hr => hu.append hr
  · rintro e u' ⟨rfl, hnot, rfl⟩
    exact ⟨done, r, rest, heq, hu, hu.same ▸ hnot, rfl⟩

end Ready

/-! ## Ends -/

/-- The tracer after it has concluded these records. -/
structure Closed (s : Tracer × Delivery) (vertices : List Vertex) (u : Tracer × Delivery) : Prop
    extends Concluded s vertices u where
  finished : ∀ digest, digest ∈ u.1.finished ↔
    digest ∈ s.1.finished ∨ ∃ v ∈ vertices, v.digest = digest ∧ v.isCompleted = true
  told : ∃ finishes, u.2.history = s.2.history ++ finishes ∧ finishes.Nodup ∧
    ∀ event, event ∈ finishes ↔ ∃ digest step, event = .stepFinished step ∧
      s.1.step? digest = some step ∧ digest ∉ s.1.finished ∧
        ∃ v ∈ vertices, v.digest = digest ∧ v.isCompleted = true

theorem Closed.append (h : Closed s done u) (h' : Closed u [v] u') :
    Closed s (done ++ [v]) u' := by
  have hsplit (digest : String) : (∃ w ∈ done ++ [v], w.digest = digest ∧ w.isCompleted = true) ↔
      (∃ w ∈ done, w.digest = digest ∧ w.isCompleted = true) ∨
        ∃ w ∈ [v], w.digest = digest ∧ w.isCompleted = true := by
    simp only [List.mem_append, or_and_right, exists_or]
  obtain ⟨finishes, hfinishes, hnodup, hmem⟩ := h.told
  obtain ⟨finishes', hfinishes', hnodup', hmem'⟩ := h'.told
  simp only [step?_congr h.numbered, h.finished, not_or] at hmem'
  refine ⟨h.toConcluded.append h'.toConcluded, fun digest => ?_, finishes ++ finishes', ?_, ?_,
    fun event => ?_⟩
  · rw [h'.finished, h.finished, or_assoc, hsplit]
  · rw [hfinishes', hfinishes, List.append_assoc]
  · refine List.nodup_append.mpr ⟨hnodup, hnodup', ?_⟩
    rintro event hin other hin' rfl
    obtain ⟨digest, step, rfl, hstep, _, hdone⟩ := (hmem event).mp hin
    obtain ⟨digest', step', heq, hstep', ⟨_, hundone⟩, _⟩ := (hmem' _).mp hin'
    obtain rfl := Event.stepFinished.inj heq
    exact hundone (step?_inj hstep hstep' ▸ hdone)
  · rw [List.mem_append, hmem, hmem']
    constructor
    · rintro (⟨digest, step, heq, hstep, hnot, hw⟩ | ⟨digest, step, heq, hstep, ⟨hnot, _⟩, hw⟩)
      · exact ⟨digest, step, heq, hstep, hnot, (hsplit digest).mpr (Or.inl hw)⟩
      · exact ⟨digest, step, heq, hstep, hnot, (hsplit digest).mpr (Or.inr hw)⟩
    · rintro ⟨digest, step, heq, hstep, hnot, hw⟩
      by_cases hdone : ∃ w ∈ done, w.digest = digest ∧ w.isCompleted = true
      · exact Or.inl ⟨digest, step, heq, hstep, hnot, hdone⟩
      · have hlast := ((hsplit digest).mp hw).resolve_left hdone
        exact Or.inr ⟨digest, step, heq, hstep, ⟨hnot, hdone⟩, hlast⟩

/-- The tracer when a record that has an error has failed the build. -/
structure Failed (s : Tracer × Delivery) (message : String) (e : BuildError)
    (u : Tracer × Delivery) : Prop where
  error : e = .buildFailed message
  same : u.1 = s.1
  told : u.2.history = s.2.history ++ [.buildFailed message]

theorem Ready.fails (h : Ready s) (hgoes : handler.GoesOn) (message : String) :
    Action.Ends (reportFailure handler message) s (fun _ _ => False) (Failed s message) := by
  have hdelivers : s.2.Delivers (.buildFailed message) :=
    Delivery.delivers_of_ne_finish h.opened nofun
  apply Action.Ends.bind
  apply (report_ends hgoes hdelivers).safely
  rintro _ w ⟨hsame, hpasses⟩
  exact .of_error rfl ⟨rfl, hsame, hpasses.history⟩

theorem Ready.closes (h : Ready s) (hgoes : handler.GoesOn) (v : Vertex)
    (hknown : v.isCompleted = true → v.digest ∈ s.1.numbered) :
    Action.Ends (Tracer.conclude handler v) s (fun _ => Closed s [v])
      (fun e u => v.error ≠ "" ∧ Failed s v.error e u) := by
  have hconcluded := h.conclude hgoes v hknown
  obtain ⟨t, d⟩ := s
  rcases conclude_cases handler v t d with ⟨herror, hrun⟩ | ⟨herror, hidle, hrun⟩ |
    ⟨_, hcompleted, _, hnone, _⟩ | ⟨step, herror, hcompleted, hnot, hstep, hrun⟩
  · have hfailed := h.fails hgoes v.error
    rcases hreported : reportFailure handler v.error (t, d) with ⟨e | a, u⟩
    · exact .of_error (hrun.trans hreported) ⟨herror, hfailed.bad_of_run hreported⟩
    · exact (hfailed.good_of_run hreported).elim
  · have hold (digest : String) (hcompletes : ∃ w ∈ [v], w.digest = digest ∧ w.isCompleted = true) :
        digest ∈ t.finished := by
      obtain ⟨w, hw, rfl, hcompleted⟩ := hcompletes
      obtain rfl := List.mem_singleton.mp hw
      exact hidle.resolve_left (by simp [hcompleted])
    refine .of_ok hrun ⟨hconcluded.good_of_run hrun, fun digest => ?_, [], by simp, .nil, ?_⟩
    · exact (or_iff_left_of_imp (hold digest)).symm
    · intro event
      simp only [List.not_mem_nil, false_iff]
      rintro ⟨digest, _, _, _, hnot, hcompletes⟩
      exact hnot (hold digest hcompletes)
  · exact absurd (hknown hcompleted) (step?_eq_none_iff.mp hnone)
  · have hcompletes (digest : String) :
        (∃ w ∈ [v], w.digest = digest ∧ w.isCompleted = true) ↔ digest = v.digest := by
      simp only [List.mem_singleton, exists_eq_left, hcompleted, and_true]
      exact eq_comm
    obtain ⟨d', hcarried, _, hhistory⟩ := h.tell hgoes (.finish hstep hnot) rfl
    have hrun := hrun.trans hcarried
    refine .of_ok hrun ⟨hconcluded.good_of_run hrun, fun digest => ?_, _, hhistory,
      List.nodup_singleton _, fun event => ?_⟩
    · rw [mem_finished_finish, hcompletes]
    · rw [List.mem_singleton]
      constructor
      · rintro rfl
        exact ⟨v.digest, step, rfl, hstep, hnot, (hcompletes _).mpr rfl⟩
      · rintro ⟨digest, n, rfl, hn, _, hdigest⟩
        obtain rfl := (hcompletes digest).mp hdigest
        rw [Option.some.inj (hn.symm.trans hstep)]

/-- The records are concluded up to the first one that has an error. -/
theorem Ready.closeAll (h : Ready s) (hgoes : handler.GoesOn) (vertices : List Vertex)
    (hknown : ∀ v ∈ vertices, v.isCompleted = true → v.digest ∈ s.1.numbered) :
    Action.Ends (Action.forEach (Tracer.conclude handler) vertices) s
      (fun _ => Closed s vertices)
      (fun e u => ∃ sound v later w, vertices = sound ++ v :: later ∧ Closed s sound w ∧
        v.error ≠ "" ∧ Failed w v.error e u) := by
  have hstart : Closed s [] s := ⟨⟨h, rfl, by simp⟩, by simp, [], by simp, .nil, by simp⟩
  apply Action.Ends.forEach (I := Closed s) _ hstart
  intro done v rest heq u hu
  have hv : v.isCompleted = true → v.digest ∈ u.1.numbered := by
    rw [hu.numbered]
    exact hknown v (heq ▸ List.mem_append_right _ List.mem_cons_self)
  apply (hu.ready.closes hgoes v hv).mono
  · exact fun _ _ hclosed => hu.append hclosed
  · rintro e u' ⟨herror, hfailed⟩
    exact ⟨done, v, rest, u, heq, hu, herror, hfailed⟩

/-! ## The whole batch -/

/-- A batch whose inputs have no cycle: how far it gets, and what it has done by then. -/
theorem Ready.traces (h : Ready s) (hgoes : handler.GoesOn)
    (hfinished : s.1.finished ⊆ s.1.numbered) {batch : Batch} {ordered : List Vertex}
    (horder : orderVertices batch.vertices = .ok ordered) :
    Action.Ends (Tracer.trace handler batch) s
      (fun _ u => ∃ u₁ u₂, Opened s ordered u₁ ∧ Reported u₁ batch.reports u₂ ∧ Closed u₂ ordered u)
      (fun e u => ∃ u₁, Opened s ordered u₁ ∧
        ((∃ before r later, batch.reports = before ++ r :: later ∧ Reported u₁ before u ∧
            r.vertex ∉ u₁.1.numbered ∧ e = unknown r.vertex) ∨
          ∃ u₂ sound v later w, Reported u₁ batch.reports u₂ ∧ ordered = sound ++ v :: later ∧
            Closed u₂ sound w ∧ v.error ≠ "" ∧ Failed w v.error e u)) := by
  rw [Action.Ends, trace_passes handler horder]
  apply Action.Ends.bind
  apply (h.openAll hgoes hfinished ordered).safely
  intro _ u₁ hopened
  apply Action.Ends.bind
  apply (hopened.ready.reportAll hgoes batch.reports).mono
  · intro _ u₂ hreported
    have hknown : ∀ v ∈ ordered, v.isCompleted = true → v.digest ∈ u₂.1.numbered := by
      intro v hv hcompleted
      rw [hreported.same, hopened.numbered]
      exact Or.inr ⟨v, hv, rfl, by simp [Vertex.isSeen, hcompleted]⟩
    apply (hreported.ready.closeAll hgoes ordered hknown).mono
    · exact fun _ u hclosed => ⟨u₁, u₂, hopened, hreported, hclosed⟩
    · rintro e u ⟨sound, v, later, w, heq, hclosed, herror, hfailed⟩
      exact ⟨u₁, hopened, Or.inr ⟨u₂, sound, v, later, w, hreported, heq, hclosed, herror, hfailed⟩⟩
  · exact fun e u hunknown => ⟨u₁, hopened, Or.inl hunknown⟩

section Outcome

variable {batch : Batch} {ordered records : List Vertex} {u₁ u₂ : Tracer × Delivery}

theorem Opened.knows_iff (h : Opened s ordered u) (hmem : ∀ v, v ∈ ordered ↔ v ∈ batch.vertices)
    (digest : String) : digest ∈ u.1.numbered ↔ s.1.Knows batch digest := by
  rw [h.numbered, Knows]
  simp only [hmem]

theorem Closed.finishes (hopened : Opened s ordered u₁) (hsame : u₂.1 = u₁.1)
    (hclosed : Closed u₂ records u) (hmem : ∀ v, v ∈ ordered ↔ v ∈ batch.vertices) :
    ∃ finishes, u.2.history = u₂.2.history ++ finishes ∧
      Finishes s.1 u.1 batch records finishes := by
  have hopen (digest : String) : digest ∈ u₂.1.finished ↔
      digest ∈ s.1.finished ∧ ∀ v ∈ batch.vertices, v.digest = digest → v.isCompleted = true := by
    rw [hsame, hopened.finished]
    simp only [hmem]
  have hanew (digest : String) : (digest ∉ u₂.1.finished ∧
      ∃ v ∈ records, v.digest = digest ∧ v.isCompleted = true) ↔
        s.1.CompletesAnew batch records digest := by
    rw [hopen, CompletesAnew, and_comm]
    push Not
    simp only [Bool.not_eq_true]
  obtain ⟨finishes, htold, hnodup, hfinishes⟩ := hclosed.told
  refine ⟨finishes, htold, hnodup, fun event => ?_, fun digest => ?_⟩
  · simp only [hfinishes, hanew, step?_congr hclosed.numbered]
  · rw [hclosed.finished, ← hopen, ← hanew]
    by_cases hin : digest ∈ u₂.1.finished
    · simp only [hin, true_or, not_true_eq_false, false_and, or_true]
    · simp only [hin, false_or, not_false_eq_true, true_and, or_false]

theorem Reported.of_knows (hopened : Opened s ordered u₁)
    (hmem : ∀ v, v ∈ ordered ↔ v ∈ batch.vertices) {reports : List Report}
    (h : Reported u₁ reports u) : ∀ r ∈ reports, s.1.Knows batch r.vertex := by
  intro r hr
  rw [← hopened.knows_iff hmem]
  exact h.known r.vertex (List.mem_map_of_mem hr)

theorem Ready.outcome (h : Ready s) (hgoes : handler.GoesOn)
    (hfinished : s.1.finished ⊆ s.1.numbered) (horder : orderVertices batch.vertices = .ok ordered) :
    Outcome s batch ordered (Tracer.trace handler batch s).1 (Tracer.trace handler batch s).2 := by
  have hmem (v : Vertex) : v ∈ ordered ↔ v ∈ batch.vertices := (orderVertices_perm horder).mem_iff
  have htraces := h.traces hgoes hfinished horder
  rcases hrun : Tracer.trace handler batch s with ⟨e | _, u⟩
  · obtain ⟨u₁, hopened, hstopped⟩ := htraces.bad_of_run hrun
    obtain ⟨starts, hstarts, hkind⟩ := hopened.told
    rcases hstopped with ⟨before, r, later, heq, hreported, hnot, rfl⟩ |
      ⟨u₂, sound, v, later, w, hreported, heq, hclosed, herror, hfailed⟩
    · rw [hopened.knows_iff hmem] at hnot
      refine .refused hkind heq (hreported.of_knows hopened hmem) hnot ?_
      simp only [hreported.told, hstarts, hreported.same, List.append_assoc]
    · obtain ⟨finishes, htold, hfinishes⟩ := hclosed.finishes hopened hreported.same hmem
      rw [← hfailed.same] at hfinishes
      have hsame : u.1.numbered = u₁.1.numbered := by
        rw [hfailed.same, hclosed.numbered, hreported.same]
      rw [hfailed.error]
      refine .failed hkind (hreported.of_knows hopened hmem) heq hclosed.sound herror hfinishes ?_
      simp only [hfailed.told, htold, hreported.told, hstarts, reportEvents_congr hsame,
        List.append_assoc]
  · obtain ⟨u₁, u₂, hopened, hreported, hclosed⟩ := htraces.good_of_run hrun
    obtain ⟨starts, hstarts, hkind⟩ := hopened.told
    obtain ⟨finishes, htold, hfinishes⟩ := hclosed.finishes hopened hreported.same hmem
    have hsame : u.1.numbered = u₁.1.numbered := by
      rw [hclosed.numbered, hreported.same]
    refine .accepted hkind (hreported.of_knows hopened hmem) hclosed.sound hfinishes ?_
    simp only [htold, hreported.told, hstarts, reportEvents_congr hsame, List.append_assoc]

end Outcome

theorem Orderly.ready (h : Orderly s) (hopen : s.2.phase = .receiving) : Ready s := by
  refine ⟨hopen, fun digest step hstep => ?_⟩
  obtain ⟨name, hin⟩ := (h.live hopen).exists_start hstep (h.alternates step)
  exact h.started step name hin

theorem trace_of_cyclic {batch : Batch} (hcyclic : ¬ Acyclic (entries batch.vertices)) :
    (∃ fault, (trace handler batch s).1 = .error (.contractViolation fault)) ∧
      (trace handler batch s).2 = s := by
  rw [trace_run]
  cases horder : orderVertices batch.vertices with
  | ok ordered => exact absurd (exists_orderVertices_iff.mp ⟨ordered, horder⟩) hcyclic
  | error e =>
    obtain ⟨digests, rfl⟩ := orderVertices_error horder
    exact ⟨⟨_, rfl⟩, rfl⟩

/-- While delivery goes on and the handler does not stop, a batch is refused if its inputs have a
cycle or a report belongs to an unknown vertex, and in no other case. With a cycle it does nothing at
all. Without one it tells starts, then its reports up to the first one of an unknown vertex; if all
are known, it finishes what its records complete anew, up to the first one that has an error, and
fails with that error, or is accepted if there is none. Only this last part finishes steps. -/
theorem batch_outcome (hgoes : handler.GoesOn) (batches : List Batch)
    (hopen : (after handler batches).2.phase = .receiving) (batch : Batch) :
    let now := after handler batches
    let answer := (trace handler batch now).1
    let next := (trace handler batch now).2
    ((∃ fault, answer = .error (.contractViolation fault)) ↔
      ¬ Acyclic (entries batch.vertices) ∨ ∃ r ∈ batch.reports, ¬ now.1.Knows batch r.vertex) ∧
    (¬ Acyclic (entries batch.vertices) → next = now) ∧
    (Acyclic (entries batch.vertices) → ∃ ordered, orderVertices batch.vertices = .ok ordered ∧
      Outcome now batch ordered answer next) ∧
    ∀ reports, ∀ event ∈ next.1.reportEvents reports,
      event.kind ≠ .stepStarting ∧ event.kind ≠ .stepFinished := by
  intro now answer next
  have horderly := Orderly.after handler batches
  have hready : Ready now := horderly.ready hopen
  have hfinished : now.1.finished ⊆ now.1.numbered := (horderly.live hopen).finished_numbered
  have houtcome (hacyclic : Acyclic (entries batch.vertices)) :
      ∃ ordered, orderVertices batch.vertices = .ok ordered ∧ Outcome now batch ordered answer next := by
    obtain ⟨ordered, horder⟩ := exists_orderVertices_iff.mpr hacyclic
    exact ⟨ordered, horder, hready.outcome hgoes hfinished horder⟩
  refine ⟨?_, fun hcyclic => (trace_of_cyclic hcyclic).2, houtcome,
    fun _ _ hin => reportEvents_kind hin⟩
  by_cases hacyclic : Acyclic (entries batch.vertices)
  · obtain ⟨ordered, _, houtcome⟩ := houtcome hacyclic
    generalize answer = result at houtcome
    cases houtcome with
    | refused _ first _ strange _ =>
      refine iff_of_true ⟨_, rfl⟩ (Or.inr ⟨_, ?_, strange⟩)
      rw [first]
      exact List.mem_append_right _ List.mem_cons_self
    | failed _ known _ _ _ _ _ =>
      refine iff_of_false nofun (not_or_intro (not_not_intro hacyclic) ?_)
      exact fun ⟨r, hr, hnot⟩ => hnot (known r hr)
    | accepted _ known _ _ _ =>
      refine iff_of_false nofun (not_or_intro (not_not_intro hacyclic) ?_)
      exact fun ⟨r, hr, hnot⟩ => hnot (known r hr)
  · exact iff_of_true (trace_of_cyclic hacyclic).1 (Or.inl hacyclic)

/-- A finished step starts again and finishes once more before another record fails the build. -/
theorem batch_outcome_restart_then_failure :
    let completed : Vertex := { digest := "a", name := "n", completed := some ⟨1, 0⟩ }
    let running : Vertex := { digest := "a", name := "n" }
    let broken : Vertex := { digest := "b", completed := some ⟨2, 0⟩, error := "boom" }
    let batch : Batch := { vertices := [running, completed, broken], logs := [{ vertex := "b" }] }
    let now := after .quiet [{ vertices := [completed] }]
    let next := (trace .quiet batch now).2
    now.2.phase = .receiving ∧
      Outcome now batch [running, completed, broken] (.error (.buildFailed "boom")) next ∧
      next.2.history = [.stepStarting 1 "n", .stepFinished 1, .stepStarting 1 "n",
        .stepStarting 2 "", .stepOutput 2 "", .stepFinished 1, .buildFailed "boom"] := by
  intro completed running broken batch now next
  have hopen : now.2.phase = .receiving := by decide
  have hanswer : (trace .quiet batch now).1 = .error (.buildFailed "boom") := by decide
  have horder : orderVertices batch.vertices = .ok [running, completed, broken] := by decide
  obtain ⟨_, _, houtcome, _⟩ := batch_outcome (fun _ _ => rfl) _ hopen batch
  obtain ⟨ordered, hordered, houtcome⟩ := houtcome (exists_orderVertices_iff.mp ⟨_, horder⟩)
  obtain rfl := Except.ok.inj (horder.symm.trans hordered)
  refine ⟨hopen, ?_, by decide⟩
  rw [← hanswer]
  exact houtcome

end Tracer

end BuildProgress
