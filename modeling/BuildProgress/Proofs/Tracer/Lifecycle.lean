import BuildProgress.Proofs.Lifecycle
import BuildProgress.Proofs.Tracer.Trace

/-!
# Steps of vertices start before anything else and take turns

While delivery is open, what the tracer knows of a digest is what was last told of its step: `Live`
says so, and every move keeps it. Once delivery has ended the two may part, but then nothing more is
told. So starts and finishes alternate in every run, and the guard never has to refuse a finish.
-/

namespace BuildProgress.Tracer

set_option autoImplicit false

variable {handler : Handler} {t t' : Tracer} {history : List Event} {event : Event}

def lastMark (t : Tracer) (digest : String) : Mark :=
  if digest ∈ t.finished then .finish else .start

/-- What was told agrees with what is known. -/
structure Live (t : Tracer) (history : List Event) : Prop where
  finished_numbered : ∀ digest ∈ t.finished, digest ∈ t.numbered
  fresh : ∀ step, t.numbered.length < step → turns step history = []
  last : ∀ digest step, t.step? digest = some step →
    (marks step history).getLast? = some (t.lastMark digest)

theorem lastMark_of_not_mem {digest : String} (h : digest ∉ t.finished) :
    t.lastMark digest = .start :=
  if_neg h

theorem lastMark_of_mem {digest : String} (h : digest ∈ t.finished) : t.lastMark digest = .finish :=
  if_pos h

namespace Live

theorem initial : Live {} [] where
  finished_numbered := by simp
  fresh := fun _ _ => rfl
  last := by simp [step?]

theorem concat_turn {digest : String} {step : Nat} {turn : Turn} (h : Live t history)
    (turned : event.turn? step = some turn) (unturned : ∀ n ≠ step, event.turn? n = none)
    (known : t'.step? digest = some step) (now : t'.lastMark digest = turn.mark)
    (others : ∀ other ≠ digest,
      t'.step? other = t.step? other ∧ t'.lastMark other = t.lastMark other)
    (grows : t.numbered.length ≤ t'.numbered.length)
    (finished_numbered : ∀ other ∈ t'.finished, other ∈ t'.numbered) :
    Live t' (history ++ [event]) := by
  refine ⟨finished_numbered, ?_, ?_⟩
  · intro n hlt
    have hle := (step?_bounds known).2
    rw [turns_concat_of_none (unturned n (by omega))]
    exact h.fresh n (by omega)
  · intro other n hn
    by_cases hother : other = digest
    · subst hother
      obtain rfl := Option.some.inj (known.symm.trans hn)
      rw [marks_concat_of_some turned, List.getLast?_concat, now]
    · obtain ⟨hstep, hlast⟩ := others other hother
      have hne : n ≠ step := fun heq => hother (step?_inj (heq ▸ hn) known)
      rw [marks, turns_concat_of_none (unturned n hne), hlast]
      exact h.last other n (hstep ▸ hn)

theorem concat_other (h : Live t history) (unturned : ∀ n, event.turn? n = none) :
    Live t (history ++ [event]) := by
  refine ⟨h.finished_numbered, ?_, ?_⟩
  · intro n hlt
    rw [turns_concat_of_none (unturned n)]
    exact h.fresh n hlt
  · intro other n hn
    rw [marks, turns_concat_of_none (unturned n)]
    exact h.last other n hn

theorem move (h : Live t history) (hmove : Move t t' event) : Live t' (history ++ [event]) := by
  cases hmove with
  | @start digest name fresh =>
    have hopen : digest ∉ t.finished :=
      fun hin => step?_eq_none_iff.mp fresh (h.finished_numbered digest hin)
    apply h.concat_turn (Event.turn?_start _ name) (fun _ => Event.turn?_start_of_ne name)
      (step?_number_self fresh) (lastMark_of_not_mem hopen)
    · exact fun other hother => ⟨step?_number_of_ne hother, rfl⟩
    · simp [number]
    · exact fun other hin => List.mem_append_left _ (h.finished_numbered other hin)
  | @restart digest step name known done =>
    have hopen : digest ∉ (t.reopen digest).finished := fun hin => (mem_finished_reopen.mp hin).2 rfl
    have known' : (t.reopen digest).step? digest = some step := known
    apply h.concat_turn (Event.turn?_start step name) (fun _ => Event.turn?_start_of_ne name) known'
      (lastMark_of_not_mem hopen)
    · intro other hother
      exact ⟨rfl, by simp [lastMark, mem_finished_reopen, hother]⟩
    · exact Nat.le_refl _
    · exact fun other hin => h.finished_numbered other (mem_finished_reopen.mp hin).1
  | progress _ _ starts finishes =>
    exact h.concat_other fun _ => Event.turn?_eq_none starts finishes
  | @finish digest step known undone =>
    have hdone : digest ∈ (t.finish digest).finished := mem_finished_finish.mpr (Or.inr rfl)
    have known' : (t.finish digest).step? digest = some step := known
    apply h.concat_turn (Event.turn?_finish step) (fun _ => Event.turn?_finish_of_ne) known'
      (lastMark_of_mem hdone)
    · intro other hother
      exact ⟨rfl, by simp [lastMark, mem_finished_finish, hother]⟩
    · exact Nat.le_refl _
    · intro other hin
      rcases mem_finished_finish.mp hin with hin | rfl
      · exact h.finished_numbered other hin
      · exact (step?_eq_some_iff.mp known).1
  | fail _ => exact h.concat_other fun _ => rfl

theorem alternates (h : Live t history) (hmove : Move t t' event) {step : Nat}
    (ha : Alternates (marks step history)) : Alternates (marks step (history ++ [event])) := by
  cases hturn : event.turn? step with
  | none =>
    rw [marks, turns_concat_of_none hturn]
    exact ha
  | some turn =>
    rw [marks_concat_of_some hturn, alternates_concat]
    refine ⟨ha, ?_⟩
    cases hmove with
    | start name fresh =>
      obtain ⟨rfl, heq⟩ := Option.ite_none_right_eq_some.mp hturn
      obtain rfl := Option.some.inj heq
      simp [Turn.mark, marks, h.fresh _ (Nat.lt_succ_self _)]
    | restart name known done =>
      obtain ⟨rfl, heq⟩ := Option.ite_none_right_eq_some.mp hturn
      obtain rfl := Option.some.inj heq
      simp [Turn.mark, h.last _ _ known, lastMark_of_mem done]
    | progress _ _ starts finishes =>
      rw [Event.turn?_eq_none starts finishes] at hturn
      cases hturn
    | finish known undone =>
      obtain ⟨rfl, heq⟩ := Option.ite_none_right_eq_some.mp hturn
      obtain rfl := Option.some.inj heq
      simp [Turn.mark, h.last _ _ known, lastMark_of_not_mem undone]
    | fail _ => cases hturn

theorem exists_start (h : Live t history) {digest : String} {step : Nat}
    (known : t.step? digest = some step) (ha : Alternates (marks step history)) :
    ∃ name, .stepStarting step name ∈ history := by
  have hne : marks step history ≠ [] := by
    intro hnil
    have hlast := h.last digest step known
    rw [hnil] at hlast
    cases hlast
  exact mem_marks_start.mp (ha.start_mem hne)

end Live

/-- What is true of tracer and guard at every moment of a run. -/
structure Orderly (s : Tracer × Delivery) : Prop where
  alternates : ∀ step, Alternates (marks step s.2.history)
  startsFirst : StartsFirst s.2.history
  started : ∀ step name, .stepStarting step name ∈ s.2.history → step ∈ s.2.started
  live : s.2.phase = .receiving → Live s.1 s.2.history

namespace Orderly

theorem initial : Orderly ({}, {}) where
  alternates := fun _ => alternates_nil
  startsFirst := by simp [StartsFirst]
  started := by simp
  live := fun _ => Live.initial

theorem step_started {d : Delivery} (h : Orderly (t, d)) (hphase : d.phase = .receiving) {step : Nat}
    (hmove : Move t t' (.stepFinished step)) : step ∈ d.started := by
  cases hmove with
  | finish known _ =>
    obtain ⟨name, hin⟩ := (h.live hphase).exists_start known (h.alternates step)
    exact h.started step name hin
  | progress _ _ _ finishes => exact absurd rfl finishes

theorem move (d : Delivery) (hmove : Move t t' event) (h : Orderly (t, d)) :
    Orderly (t', (Delivery.emit handler event d).2) := by
  by_cases hdelivers : d.Delivers event
  · have hlive := h.live hdelivers.1
    have hhistory : (Delivery.emit handler event d).2.history = d.history ++ [event] :=
      Delivery.emit_history hdelivers
    refine ⟨?_, ?_, ?_, ?_⟩
    · intro step
      rw [hhistory]
      exact hlive.alternates hmove (h.alternates step)
    · rw [hhistory]
      apply startsFirst_concat h.startsFirst
      intro step hstep
      cases hmove with
      | start name _ => exact Or.inl ⟨name, by cases hstep; rfl⟩
      | restart name _ _ => exact Or.inl ⟨name, by cases hstep; rfl⟩
      | progress known about _ _ =>
        obtain rfl := Option.some.inj (about.symm.trans hstep)
        exact Or.inr (hlive.exists_start known (h.alternates _))
      | finish known _ =>
        cases hstep
        exact Or.inr (hlive.exists_start known (h.alternates _))
      | fail _ => cases hstep
    · intro step name hin
      rw [hhistory] at hin
      rw [Delivery.emit_started hdelivers]
      rcases List.mem_append.mp hin with hin | hin
      · exact Delivery.mem_started_noteStart (h.started step name hin)
      · obtain rfl := List.mem_singleton.mp hin
        exact List.mem_insert_self
    · intro _
      rw [hhistory]
      exact hlive.move hmove
  · rw [Delivery.emit_of_not_delivers hdelivers]
    refine ⟨h.alternates, h.startsFirst, h.started, ?_⟩
    intro hphase
    obtain ⟨step, rfl, hnot⟩ := Delivery.finishesUnstarted_of_not_delivers hphase hdelivers
    exact absurd (h.step_started hphase hmove) hnot

theorem reaches {s u : Tracer × Delivery} (hreach : Reaches handler s u) (h : Orderly s) : Orderly u :=
  hreach.keeps move h

theorem not_rejects {s : Tracer × Delivery} (h : Orderly s) (step : Nat) :
    ¬ Rejects handler s step := by
  rintro ⟨t, t', d, hreach, hmove, hphase, hnot⟩
  exact hnot ((h.reaches hreach).step_started hphase hmove)

theorem after (handler : Handler) (batches : List Batch) : Orderly (after handler batches) :=
  initial.reaches (reaches_after handler batches)

end Orderly

/-- In every run the starts and finishes of each step alternate and a start comes before everything
else that is told of the step. So no batch makes the guard refuse a finish. -/
theorem lifecycle_alternates (handler : Handler) (batches : List Batch) :
    (∀ step, Alternates (marks step (after handler batches).2.history)) ∧
    StartsFirst (after handler batches).2.history ∧
    ∀ batch step, (trace handler batch (after handler batches)).1 ≠
      .error (.contractViolation (.finishedBeforeStart step)) := by
  have h := Orderly.after handler batches
  refine ⟨h.alternates, h.startsFirst, ?_⟩
  intro batch step hrejected
  exact h.not_rejects step ((Stepwise.trace batch _).2 step hrejected)

end BuildProgress.Tracer
