import BuildProgress.Proofs.Guard

/-!
# How actions end

An action, begun in some state, comes to a result or to an error, and leaves a state behind in both
cases. `Ends` says both at once, so that what is known of actions that are carried out one after the
other follows from what is known of each.

While delivery goes on and the handler does not stop, the guard takes every event that it may take.
So the errors of such a run are those of what produces the events, and among them the failure of the
build has a place of its own: the handler is told of it, and of nothing after it.
-/

namespace BuildProgress

set_option autoImplicit false

namespace Action

variable {ε σ τ α β : Type}

/-- Begun in this state, the action ends with such a result or with such an error. -/
def Ends (act : Action ε σ α) (s : σ) (good : α → σ → Prop) (bad : ε → σ → Prop) : Prop :=
  match act s with
  | (.ok a, t) => good a t
  | (.error e, t) => bad e t

namespace Ends

variable {act : Action ε σ α} {s t : σ} {good good' : α → σ → Prop} {bad bad' : ε → σ → Prop}

theorem of_ok {a : α} (hrun : act s = (.ok a, t)) (h : good a t) : Ends act s good bad := by
  simpa only [Ends, hrun] using h

theorem of_error {e : ε} (hrun : act s = (.error e, t)) (h : bad e t) : Ends act s good bad := by
  simpa only [Ends, hrun] using h

theorem good_of_run {a : α} (h : Ends act s good bad) (hrun : act s = (.ok a, t)) : good a t := by
  simpa only [Ends, hrun] using h

theorem bad_of_run {e : ε} (h : Ends act s good bad) (hrun : act s = (.error e, t)) : bad e t := by
  simpa only [Ends, hrun] using h

theorem mono (h : Ends act s good bad) (hgood : ∀ a t, good a t → good' a t)
    (hbad : ∀ e t, bad e t → bad' e t) : Ends act s good' bad' := by
  rcases hrun : act s with ⟨e | a, t⟩
  · exact of_error hrun (hbad e t (h.bad_of_run hrun))
  · exact of_ok hrun (hgood a t (h.good_of_run hrun))

theorem mono_good (h : Ends act s good bad) (hgood : ∀ a t, good a t → good' a t) :
    Ends act s good' bad :=
  h.mono hgood fun _ _ hbad => hbad

/-- What never fails does not fail in any other sense. -/
theorem safely (h : Ends act s good fun _ _ => False) (hgood : ∀ a t, good a t → good' a t) :
    Ends act s good' bad :=
  h.mono hgood fun _ _ hfalse => hfalse.elim

theorem exists_run (h : Ends act s good fun _ _ => False) :
    ∃ a t, act s = (.ok a, t) ∧ good a t := by
  rcases hrun : act s with ⟨e | a, t⟩
  · exact (h.bad_of_run hrun).elim
  · exact ⟨a, t, rfl, h.good_of_run hrun⟩

theorem bind {next : α → Action ε σ β} {good : β → σ → Prop}
    (h : Ends act s (fun a t => Ends (next a) t good bad) bad) :
    Ends (act >>= next) s good bad := by
  rcases hrun : act s with ⟨e | a, t⟩
  · exact of_error (bind_run_error hrun) (h.bad_of_run hrun)
  · have hnext := h.good_of_run hrun
    unfold Ends at hnext ⊢
    rwa [bind_run_ok hrun]

theorem after_view {f : σ → α} {next : α → Action ε σ β} {good : β → σ → Prop}
    (h : Ends (next (f s)) s good bad) : Ends (view f >>= next) s good bad :=
  bind (of_ok rfl h)

theorem after_update {f : σ → σ} {next : Unit → Action ε σ β} {good : β → σ → Prop}
    (h : Ends (next ()) (f s) good bad) : Ends (update f >>= next) s good bad :=
  bind (of_ok rfl h)

theorem whenever {c : Prop} [Decidable c] {act : Action ε σ Unit} {next : Unit → Action ε σ β}
    {P : σ → Prop} {good : β → σ → Prop} (hact : c → Ends act s (fun _ => P) bad)
    (hskip : ¬ c → P s) (hnext : ∀ t, P t → Ends (next ()) t good bad) :
    Ends (if c then act >>= next else next ()) s good bad := by
  by_cases h : c
  · rw [if_pos h]
    exact bind ((hact h).mono (fun _ t ht => hnext t ht) fun _ _ hbad => hbad)
  · rw [if_neg h]
    exact hnext s (hskip h)

theorem within {part : τ → σ} {replace : τ → σ → τ} {t : τ} {good : α → τ → Prop}
    {bad : ε → τ → Prop} (h : Ends act (part t) (fun a s => good a (replace t s))
      (fun e s => bad e (replace t s))) : Ends (within part replace act) t good bad := by
  rcases hrun : act (part t) with ⟨e | a, s⟩
  · have hwithin : Action.within part replace act t = (.error e, replace t s) := by
      simp only [Action.within, hrun]
    exact of_error hwithin (h.bad_of_run hrun)
  · have hwithin : Action.within part replace act t = (.ok a, replace t s) := by
      simp only [Action.within, hrun]
    exact of_ok hwithin (h.good_of_run hrun)

/-- What holds of the items that were gone through holds of one more after each step. -/
theorem forEach {f : α → Action ε σ Unit} {I : List α → σ → Prop} {xs : List α}
    (hf : ∀ done x rest, xs = done ++ x :: rest → ∀ s, I done s →
      Ends (f x) s (fun _ => I (done ++ [x])) bad) (hs : I [] s) :
    Ends (forEach f xs) s (fun _ => I xs) bad := by
  suffices hrest : ∀ rest done, xs = done ++ rest → ∀ s, I done s →
      Ends (Action.forEach f rest) s (fun _ => I xs) bad from hrest xs [] rfl s hs
  intro rest
  induction rest with
  | nil =>
    intro done heq s hs
    rw [List.append_nil] at heq
    exact of_ok (forEach_nil f s) (heq ▸ hs)
  | cons x rest ih =>
    intro done heq s hs
    apply bind
    apply (hf done x rest heq s hs).mono
    · intro _ t ht
      exact ih (done ++ [x]) (by rw [heq, List.append_assoc, List.singleton_append]) t ht
    · exact fun _ _ h => h

end Ends

/-- A run that fails got through some items and failed at the next one. -/
theorem exists_of_forEach_error {f : α → Action ε σ Unit} {xs : List α} {s t : σ} {e : ε}
    (h : forEach f xs s = (.error e, t)) : ∃ earlier x later u, xs = earlier ++ x :: later ∧
      forEach f earlier s = (.ok (), u) ∧ f x u = (.error e, t) := by
  induction xs generalizing s with
  | nil => cases h
  | cons x xs ih =>
    rw [forEach_cons] at h
    rcases hrun : f x s with ⟨e' | _, u⟩
    · rw [hrun] at h
      exact ⟨[], x, xs, s, rfl, rfl, hrun.trans h⟩
    · rw [hrun] at h
      obtain ⟨earlier, y, later, v, rfl, hearlier, hy⟩ := ih h
      refine ⟨x :: earlier, y, later, v, rfl, ?_, hy⟩
      rw [forEach_cons, hrun]
      exact hearlier

end Action

namespace Delivery

variable {handler : Handler} {event : Event} {d d' : Delivery} {message : String}

/-- The guard after the handler was given an event and went on. -/
structure Passes (event : Event) (d d' : Delivery) : Prop where
  history : d'.history = d.history ++ [event]
  started : d'.started = (d.noteStart event).started
  phase : d'.phase = if event.isFailure then .terminated else .receiving

theorem emit_passes (hgoes : handler.GoesOn) (h : d.Delivers event) :
    ∃ d', emit handler event d = (.ok (), d') ∧ Passes event d d' := by
  rw [emit_of_delivers h]
  refine ⟨(handOver handler event (d.noteStart event)).2, Prod.ext ?_ rfl, ?_⟩
  · simp [handOver, hgoes _ _]
  · constructor <;> simp [handOver, phaseAfter, hgoes _ _]

theorem delivers_of_ne_finish (hopen : d.phase = .receiving) (h : event.kind ≠ .stepFinished) :
    d.Delivers event := by
  refine ⟨hopen, ?_⟩
  rintro ⟨step, rfl, _⟩
  exact h rfl

/-- The last that the handler was told is a failure of the build. -/
structure ToldFailure (message : String) (d : Delivery) : Prop where
  phase : d.phase = .terminated
  last : d.history.getLast? = some (.buildFailed message)

/-- An error that is no failure of the build leaves things in good order. -/
def Settled (order : Prop) (d : Delivery) : BuildError → Prop
  | .buildFailed message => d.ToldFailure message
  | _ => order

theorem Settled.iff_of_ne {order : Prop} {e : BuildError} (hne : ∀ message, e ≠ .buildFailed message) :
    Settled order d e ↔ order := by
  cases e with
  | buildFailed message => exact absurd rfl (hne message)
  | _ => exact Iff.rfl

theorem Settled.of_ne {order : Prop} {e : BuildError} (h : order)
    (hne : ∀ message, e ≠ .buildFailed message) : Settled order d e :=
  (iff_of_ne hne).mpr h

theorem Settled.mono {order order' : Prop} {e : BuildError} (h : Settled order d e)
    (horder : order → order') : Settled order' d e := by
  cases e with
  | buildFailed message => exact h
  | _ => exact horder h

theorem Settled.order_of_open {order : Prop} {e : BuildError} (h : Settled order d e)
    (hopen : d.phase = .receiving) : order := by
  cases e with
  | buildFailed message => exact nomatch hopen.symm.trans h.phase
  | _ => exact h

namespace Kept

theorem last_failure (h : Kept handler d) {message : String}
    (htold : .buildFailed message ∈ d.history) :
    d.history.getLast? = some (.buildFailed message) := by
  obtain ⟨earlier, later, heq⟩ := List.append_of_mem htold
  have hprefix : earlier ++ [.buildFailed message] <+: d.history :=
    ⟨later, by rw [heq, List.append_assoc, List.singleton_append]⟩
  rw [(h.told.last_of_failure hprefix rfl).1, List.getLast?_concat]

theorem not_failed (h : Kept handler d) (hopen : d.phase = .receiving) (message : String) :
    .buildFailed message ∉ d.history :=
  (h.told.receiving_iff.mp hopen).2 message

/-- An error that leaves things in good order is a failure of the build if and only if the handler
was told of that failure. -/
theorem failure_iff (h : Kept handler d) {e : BuildError}
    (hsettled : Settled (d.phase = .receiving) d e) (message : String) :
    e = .buildFailed message ↔ .buildFailed message ∈ d.history := by
  cases e with
  | buildFailed text =>
    have hlast : d.history.getLast? = some (.buildFailed text) := hsettled.last
    constructor
    · intro heq
      rw [BuildError.buildFailed.inj heq] at hlast
      exact List.mem_of_getLast? hlast
    · intro htold
      rw [h.last_failure htold, Option.some.injEq, Event.buildFailed.injEq] at hlast
      rw [hlast]
  | _ => exact ⟨nofun, fun htold => absurd htold (h.not_failed hsettled message)⟩

end Kept

end Delivery

section Reporting

variable {σ α β : Type} {handler : Handler} {s : σ × Delivery}

section Steps

variable {good : β → σ × Delivery → Prop} {bad : BuildError → σ × Delivery → Prop}

theorem Action.Ends.after_look {f : σ → α} {next : α → Reporting σ β}
    (h : Action.Ends (next (f s.1)) s good bad) : Action.Ends (look f >>= next) s good bad :=
  .after_view h

theorem Action.Ends.after_change {f : σ → σ} {next : Unit → Reporting σ β}
    (h : Action.Ends (next ()) (f s.1, s.2) good bad) :
    Action.Ends (change f >>= next) s good bad :=
  .after_update h

end Steps

theorem report_ends (hgoes : handler.GoesOn) {event : Event} (h : s.2.Delivers event) :
    Action.Ends (report handler event) s (fun _ t => t.1 = s.1 ∧ Delivery.Passes event s.2 t.2)
      (fun _ _ => False) := by
  obtain ⟨d', hemit, hpasses⟩ := Delivery.emit_passes hgoes h
  exact .within (.of_ok hemit ⟨rfl, hpasses⟩)

theorem reportFailure_ends (hgoes : handler.GoesOn) (hopen : s.2.phase = .receiving)
    (message : String) : Action.Ends (reportFailure handler message) s (fun _ _ => False)
      (fun e t => e = .buildFailed message ∧ t.1 = s.1 ∧ t.2.ToldFailure message) := by
  have hdelivers : s.2.Delivers (.buildFailed message) :=
    Delivery.delivers_of_ne_finish hopen nofun
  apply Action.Ends.bind
  apply (report_ends hgoes hdelivers).mono
  · rintro _ t ⟨hsame, hpasses⟩
    refine .of_error rfl ⟨rfl, hsame, hpasses.phase, ?_⟩
    rw [hpasses.history, List.getLast?_concat]
  · exact fun _ _ h => h.elim

end Reporting

/-- How something ends that is refused, or else fails, or else is well. -/
def judge : Option BuildError → Option String → Except BuildError Unit
  | some e, _ => .error e
  | none, some message => .error (.buildFailed message)
  | none, none => .ok ()

theorem judge_eq_ok_iff {refusal : Option BuildError} {failure : Option String} :
    judge refusal failure = .ok () ↔ refusal = none ∧ failure = none := by
  cases refusal <;> cases failure <;> simp [judge]

/-- A later failure changes nothing if there was an error before. -/
theorem judge_or_of_error {refusal : Option BuildError} {failure later : Option String}
    {e : BuildError} (h : judge refusal failure = .error e) :
    judge refusal (failure.or later) = .error e := by
  cases refusal with
  | some _ => exact h
  | none =>
    cases failure with
    | some _ => exact h
    | none => cases h

end BuildProgress
