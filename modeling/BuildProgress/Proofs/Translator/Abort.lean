import BuildProgress.Proofs.Translator.Scripted

/-!
# A handler that stops the build

Whatever the translators are doing when the handler asks to stop, the build ends there and says why.
`Heeds` is what an action needs for that; what follows a script has it, and it is kept when actions
are carried out one after the other and unless the build is cancelled.
-/

namespace BuildProgress

set_option autoImplicit false

/-- At this event, the first time in a history, the handler asks to stop. -/
def Handler.StopsFirstAt (handler : Handler) (n : Nat) (history : List Event) : Prop :=
  ∃ earlier event, earlier ++ [event] <+: history ∧ earlier.length + 1 = n ∧
    (handler earlier event).stop = true ∧ ¬ handler.Stops earlier

/-- Of the events before the `n`-th, two handlers cancel at the same ones. -/
def Handler.CancelsAs (handler patient : Handler) (n : Nat) (told : List Event) : Prop :=
  ∀ earlier event, earlier ++ [event] <+: told → earlier.length + 1 < n →
    (handler earlier event).cancel = (patient earlier event).cancel

/-- The handler that cancels as this one does, and never stops. -/
def Handler.patient (handler : Handler) : Handler := fun earlier event =>
  { handler earlier event with stop := false }

namespace Handler

variable {handler patient : Handler} {told full earlier : List Event} {event : Event} {n : Nat}

/-- Up to the event at which it stops, a handler answers as one that goes on and cancels alike. -/
theorem StopsFirstAt.le_of_ne (hstops : handler.StopsFirstAt n full) (hpatient : patient.GoesOn)
    (hcancel : handler.CancelsAs patient n told) (hin : earlier ++ [event] <+: told)
    (hin' : earlier ++ [event] <+: full) (hne : handler earlier event ≠ patient earlier event) :
    n ≤ earlier.length + 1 := by
  obtain ⟨before, last, hlast, hn, _, hnone⟩ := hstops
  by_contra hlt
  have hbefore : earlier ++ [event] <+: before := by
    have hlength : (earlier ++ [event]).length ≤ before.length := by
      rw [List.length_append, List.length_singleton]
      omega
    exact List.prefix_of_prefix_length_le hin' ((List.prefix_append _ _).trans hlast) hlength
  have hgoes : (handler earlier event).stop = (patient earlier event).stop := by
    rw [hpatient earlier event]
    by_contra hstop
    exact hnone ⟨earlier, event, hbefore, by simpa using hstop⟩
  have hsame := hcancel earlier event hin (by omega)
  apply hne
  cases hreply : handler earlier event
  cases hreply' : patient earlier event
  simp_all

theorem StopsFirstAt.of_parts (hparts : handler.PartsFrom patient told full)
    (hpatient : patient.GoesOn) (hcancel : handler.CancelsAs patient n told)
    (hstops : handler.StopsFirstAt n full) : handler.StopsFirstAt n told := by
  obtain ⟨earlier, event, hin, hin', hne⟩ := hparts
  have hle := hstops.le_of_ne hpatient hcancel hin hin' hne
  obtain ⟨before, last, hlast, hn, hstop, hnone⟩ := hstops
  have hlength : (before ++ [last]).length ≤ (earlier ++ [event]).length := by
    rw [List.length_append, List.length_append, List.length_singleton, List.length_singleton]
    omega
  have hwithin := List.prefix_of_prefix_length_le hlast hin' hlength
  exact ⟨before, last, hwithin.trans hin, hn, hstop, hnone⟩

theorem PartsFrom.told_within (hparts : handler.PartsFrom patient told full)
    (hpatient : patient.GoesOn) (hcancel : handler.CancelsAs patient n told)
    (hstops : handler.StopsFirstAt n told) (hlength : told.length = n) : told <+: full := by
  obtain ⟨earlier, event, hin, hin', hne⟩ := hparts
  have hle := hstops.le_of_ne hpatient hcancel hin hin hne
  have htold : earlier ++ [event] = told := by
    apply hin.eq_of_length_le
    rw [List.length_append, List.length_singleton]
    omega
  rwa [htold] at hin'

/-- The handler that asks to stop, and cancels, at one event. -/
def stoppingAt (n : Nat) : Handler :=
  fun earlier _ => { stop := earlier.length + 1 == n, cancel := earlier.length + 1 == n }

theorem stoppingAt_stopsFirstAt
    (hin : earlier ++ [event] <+: told) (hn : earlier.length + 1 = n) :
    (stoppingAt n).StopsFirstAt n told := by
  refine ⟨earlier, event, hin, hn, by simp [stoppingAt, hn], ?_⟩
  rintro ⟨before, last, hbefore, hstop⟩
  have hle : before.length + 1 ≤ earlier.length := by
    simpa using hbefore.length_le
  have hat : before.length + 1 = n := by simpa [stoppingAt] using hstop
  omega

end Handler

open Working

namespace Translator

variable {α : Type} {w : Working Translator}

theorem unlessCancelled_of_cancelled (act : Act Translator α) (h : w.delivery.cancelled = true) :
    unlessCancelled act w = (.error .cancelled, w) := by
  simp [unlessCancelled, Action.bind_run, Action.view, Action.fail, h]

theorem unlessCancelled_of_not (act : Act Translator α) (h : w.delivery.cancelled = false) :
    unlessCancelled act w = act w := by
  simp [unlessCancelled, Action.bind_run, Action.view, h]

/-- In a build that is cancelled already nothing is begun. -/
theorem forEach_unlessCancelled_of_cancelled {ι : Type} (f : ι → Act Translator Unit) (items : List ι)
    (act : Act Translator α) (h : w.delivery.cancelled = true) :
    (Action.forEach (fun item => unlessCancelled (f item)) items >>= fun _ => unlessCancelled act) w =
      (.error .cancelled, w) := by
  cases items with
  | nil =>
    rw [Action.bind_run_ok (Action.forEach_nil _ w), unlessCancelled_of_cancelled _ h]
  | cons item items =>
    have hfirst : Action.forEach (fun item => unlessCancelled (f item)) (item :: items) w =
        (.error .cancelled, w) := by
      rw [Action.forEach_cons, unlessCancelled_of_cancelled _ h]
    rw [Action.bind_run_error hfirst]

end Translator

/-- The handler has its say in what an action does through its answers only, and an action that it
stops ends with the error that says so. -/
structure Heeds {σ α : Type} (act : Handler → Act σ α) : Prop where
  keeps : ∀ (handler : Handler) (P : Delivery → Prop),
    (∀ event d, P d → P (Delivery.emit handler event d).2) →
      ∀ w, P w.delivery → P (act handler w).2.delivery
  stops : ∀ handler w, w.delivery.phase ≠ .aborted →
    (act handler w).2.delivery.phase = .aborted → (act handler w).1 = .error .callbackFailed
  parts : ∀ h h' w, act h w = act h' w ∨
    h.PartsFrom h' (act h w).2.delivery.history (act h' w).2.delivery.history
  listens : ∀ handler : Handler, handler.GoesOn → ∀ w,
    act .quiet w.calm = ((act handler w).1, (act handler w).2.calm) ∨
      (act handler w).1 = .error .cancelled ∧
        (act handler w).2.delivery.history <+: (act .quiet w.calm).2.delivery.history

theorem Scripted.heeds {σ α : Type} {act : Handler → Act σ α} (h : Scripted assemble act) :
    Heeds act := by
  have hrun (w : Working σ) : ∃ script : Script (σ × Option Transcript) α, ∀ handler,
      act handler w = ((script.play handler w.delivery).1, assemble
        (script.play handler w.delivery).2.1 (script.play handler w.delivery).2.2) := by
    obtain ⟨script, hscript⟩ := h (w.translator, w.transcript)
    exact ⟨script, fun handler => hscript handler w.delivery⟩
  constructor
  case keeps =>
    intro handler P hemit w hw
    obtain ⟨script, hscript⟩ := hrun w
    rw [hscript]
    exact script.play_keeps hemit hw
  case stops =>
    intro handler w hopen haborted
    obtain ⟨script, hscript⟩ := hrun w
    rw [hscript] at haborted ⊢
    exact script.play_of_aborted hopen haborted
  case parts =>
    intro h h' w
    obtain ⟨script, hscript⟩ := hrun w
    rw [hscript, hscript]
    rcases script.play_eq_or_parts h h' w.delivery with heq | hparts
    · exact Or.inl (by rw [heq])
    · exact Or.inr hparts
  case listens =>
    intro handler hgoes w
    exact Or.inl (calm_of_scripted h hgoes w)

namespace Heeds

variable {σ α β : Type} {act : Handler → Act σ α} {next : Handler → α → Act σ β}

theorem history_grows (h : Heeds act) (handler : Handler) (w : Working σ) :
    w.delivery.history <+: (act handler w).2.delivery.history := by
  apply h.keeps handler fun d => w.delivery.history <+: d.history
  · intro event d hd
    exact hd.trans (Delivery.history_emit event d)
  · exact List.prefix_rfl

theorem history_bind (hnext : ∀ a, Heeds (next · a)) (handler : Handler) (w : Working σ) :
    (act handler w).2.delivery.history <+:
      ((act handler >>= next handler) w).2.delivery.history := by
  rcases hrun : act handler w with ⟨e | a, t⟩
  · simp only [Action.bind_run_error hrun, List.prefix_rfl]
  · rw [Action.bind_run_ok hrun]
    exact (hnext a).history_grows handler t

theorem bind (h : Heeds act) (hnext : ∀ a, Heeds (next · a)) :
    Heeds (fun handler => act handler >>= next handler) := by
  constructor
  case keeps =>
    intro handler P hemit w hw
    have ht := h.keeps handler P hemit w hw
    change P ((act handler >>= next handler) w).2.delivery
    rcases hrun : act handler w with ⟨e | a, t⟩
    · rw [Action.bind_run_error hrun]
      rwa [hrun] at ht
    · rw [Action.bind_run_ok hrun]
      rw [hrun] at ht
      exact (hnext a).keeps handler P hemit t ht
  case stops =>
    intro handler w hopen haborted
    have hstops := h.stops handler w hopen
    change ((act handler >>= next handler) w).2.delivery.phase = .aborted at haborted
    change ((act handler >>= next handler) w).1 = .error .callbackFailed
    rcases hrun : act handler w with ⟨e | a, t⟩
    · rw [Action.bind_run_error hrun] at haborted ⊢
      rw [hrun] at hstops
      cases hstops haborted
      rfl
    · -- The first action succeeded, so that the handler has not stopped in it.
      rw [Action.bind_run_ok hrun] at haborted ⊢
      rw [hrun] at hstops
      exact (hnext a).stops handler t (fun ht => nomatch hstops ht) haborted
  case parts =>
    intro h₁ h₂ w
    rcases h.parts h₁ h₂ w with heq | hparts
    · rcases hrun : act h₁ w with ⟨e | a, t⟩
      · left
        rw [Action.bind_run_error hrun, Action.bind_run_error (heq ▸ hrun)]
      · simp only [Action.bind_run_ok hrun, Action.bind_run_ok (heq.symm.trans hrun)]
        exact (hnext a).parts h₁ h₂ t
    · right
      exact hparts.mono (history_bind hnext h₁ w) (history_bind hnext h₂ w)
  case listens =>
    intro handler hgoes w
    have hmore : (act .quiet w.calm).2.delivery.history <+: _ := history_bind hnext .quiet w.calm
    rcases h.listens handler hgoes w with hsame | ⟨hcancelled, hwithin⟩
    · rcases hrun : act handler w with ⟨e | a, t⟩
      · left
        rw [hrun] at hsame
        rw [Action.bind_run_error hsame, Action.bind_run_error hrun]
      · rw [hrun] at hsame
        simp only [Action.bind_run_ok hsame, Action.bind_run_ok hrun]
        exact (hnext a).listens handler hgoes t
    · right
      rcases hrun : act handler w with ⟨e | a, t⟩
      · rw [hrun] at hcancelled hwithin
        obtain rfl := Except.error.inj hcancelled
        rw [Action.bind_run_error hrun]
        exact ⟨rfl, hwithin.trans hmore⟩
      · rw [hrun] at hcancelled
        cases hcancelled

theorem forEach {f : Handler → α → Act σ Unit} (h : ∀ a, Heeds (f · a)) (xs : List α) :
    Heeds (fun handler => Action.forEach (f handler) xs) := by
  induction xs with
  | nil => exact (Scripted.pure ()).heeds
  | cons x xs ih => exact (h x).bind fun _ => ih

theorem unlessCancelled {act : Handler → Act Translator α} (h : Heeds act) :
    Heeds (fun handler => Translator.unlessCancelled (act handler)) := by
  constructor
  case keeps =>
    intro handler P hemit w hw
    cases hcancelled : w.delivery.cancelled with
    | true => rwa [Translator.unlessCancelled_of_cancelled _ hcancelled]
    | false =>
      rw [Translator.unlessCancelled_of_not _ hcancelled]
      exact h.keeps handler P hemit w hw
  case stops =>
    intro handler w hopen haborted
    cases hcancelled : w.delivery.cancelled with
    | true =>
      rw [Translator.unlessCancelled_of_cancelled _ hcancelled] at haborted
      exact absurd haborted hopen
    | false =>
      rw [Translator.unlessCancelled_of_not _ hcancelled] at haborted ⊢
      exact h.stops handler w hopen haborted
  case parts =>
    intro h₁ h₂ w
    cases hcancelled : w.delivery.cancelled with
    | true =>
      left
      rw [Translator.unlessCancelled_of_cancelled _ hcancelled,
        Translator.unlessCancelled_of_cancelled _ hcancelled]
    | false =>
      rw [Translator.unlessCancelled_of_not _ hcancelled,
        Translator.unlessCancelled_of_not _ hcancelled]
      exact h.parts h₁ h₂ w
  case listens =>
    intro handler hgoes w
    rw [Translator.unlessCancelled_of_not _ rfl]
    cases hcancelled : w.delivery.cancelled with
    | true =>
      right
      rw [Translator.unlessCancelled_of_cancelled _ hcancelled]
      exact ⟨rfl, h.history_grows .quiet w.calm⟩
    | false =>
      rw [Translator.unlessCancelled_of_not _ hcancelled]
      exact h.listens handler hgoes w

section Stopping

variable {handler patient : Handler} {w : Working σ} {n : Nat}

/-- The handler is given the event at which it stops, and no other one after it. -/
theorem stopped (h : Heeds act) (hkept : Delivery.Kept handler w.delivery)
    (hopen : w.delivery.phase ≠ .aborted)
    (hstops : handler.StopsFirstAt n (act handler w).2.delivery.history) :
    (act handler w).2.delivery.history.length = n ∧ (act handler w).1 = .error .callbackFailed := by
  obtain ⟨earlier, event, hin, hn, hstop, _⟩ := hstops
  have htold := (h.keeps handler _ (fun event d hd => hd.emit event) w hkept).told
  obtain ⟨hlast, haborted⟩ := htold.last_of_stop hin hstop
  refine ⟨?_, h.stops handler w hopen haborted⟩
  rw [hlast, List.length_append, List.length_singleton, hn]

theorem told_within (h : Heeds act) (hpatient : patient.GoesOn)
    (hcancel : handler.CancelsAs patient n (act handler w).2.delivery.history)
    (hstops : handler.StopsFirstAt n (act handler w).2.delivery.history)
    (hlength : (act handler w).2.delivery.history.length = n) :
    (act handler w).2.delivery.history <+: (act patient w).2.delivery.history := by
  rcases h.parts handler patient w with heq | hparts
  · exact heq ▸ List.prefix_rfl
  · exact hparts.told_within hpatient hcancel hstops hlength

/-- What a handler is told until it stops, the quiet one is told, whoever cancels. -/
theorem told_within_quiet (h : Heeds act)
    (hstops : handler.StopsFirstAt n (act handler w).2.delivery.history)
    (hlength : (act handler w).2.delivery.history.length = n) :
    (act handler w).2.delivery.history <+: (act .quiet w.calm).2.delivery.history := by
  have hpatient : handler.patient.GoesOn := fun _ _ => rfl
  have hcancel : handler.CancelsAs handler.patient n (act handler w).2.delivery.history :=
    fun _ _ _ _ => rfl
  have hwithin := h.told_within hpatient hcancel hstops hlength
  rcases h.listens handler.patient hpatient w with hsame | ⟨_, hmore⟩
  · rw [hsame]
    exact hwithin
  · exact hwithin.trans hmore

theorem stopsFirstAt (h : Heeds act) (hpatient : patient.GoesOn)
    (hcancel : handler.CancelsAs patient n (act handler w).2.delivery.history)
    (hstops : handler.StopsFirstAt n (act patient w).2.delivery.history) :
    handler.StopsFirstAt n (act handler w).2.delivery.history := by
  rcases h.parts handler patient w with heq | hparts
  · rwa [heq]
  · exact .of_parts hparts hpatient hcancel hstops

end Stopping

end Heeds

namespace Translator

theorem pump_heeds (messages : List BackendMessage) : Heeds (pump · messages) := by
  have hrelay : Heeds (relay · messages) :=
    .forEach (fun message => (handle_scripted message).heeds.unlessCancelled) messages
  exact hrelay.bind fun _ => finish_scripted.heeds.unlessCancelled

/-- If the handler stops at the `n`-th event, then it has been given the first `n` of the events that
a handler is given which only listens, or one that cancels alike and goes on, and the build ends with
the error that says so. And it does stop if its turn comes in what such a handler is given. What
event it is does not matter, nor whether the build is cancelled at the same time. -/
theorem stop_ends_build (builder : Builder) (messages : List BackendMessage)
    (transcript : Option Transcript) (cancelled : Bool) (handler : Handler) (n : Nat) :
    let start : Working Translator :=
      { translator := .start builder, delivery := { cancelled }, transcript }
    let told := (pump handler messages start).2.delivery.history
    (handler.StopsFirstAt n told →
      told.length = n ∧ (pump handler messages start).1 = .error .callbackFailed ∧
      told = (pump .quiet messages start).2.delivery.history.take n ∧
      ∀ patient : Handler, patient.GoesOn → handler.CancelsAs patient n told →
        told = (pump patient messages start).2.delivery.history.take n) ∧
    ∀ patient : Handler, patient.GoesOn → handler.CancelsAs patient n told →
      handler.StopsFirstAt n (pump patient messages start).2.delivery.history →
        handler.StopsFirstAt n told := by
  intro start told
  have hheeds := pump_heeds messages
  constructor
  · intro hstops
    have hopen : start.delivery.phase ≠ .aborted := nofun
    obtain ⟨hlength, herror⟩ := hheeds.stopped (.initial handler cancelled) hopen hstops
    refine ⟨hlength, herror, ?_, fun patient hpatient hcancel => ?_⟩
    · have hstart : start.calm = start := by
        cases cancelled with
        | false => rfl
        | true =>
          have hnone : pump handler messages start = (.error .cancelled, start) :=
            forEach_unlessCancelled_of_cancelled _ messages (finish handler) rfl
          rw [hnone] at herror
          cases herror
      have hwithin := hheeds.told_within_quiet hstops hlength
      rw [hstart] at hwithin
      exact hlength ▸ List.prefix_iff_eq_take.mp hwithin
    · have hwithin := hheeds.told_within hpatient hcancel hstops hlength
      exact hlength ▸ List.prefix_iff_eq_take.mp hwithin
  · exact fun patient hpatient hcancel hstops => hheeds.stopsFirstAt hpatient hcancel hstops

def uploads : List BackendMessage :=
  [.contextUpload 10, .contextUpload 20, .contextUpload 30]

theorem stop_ends_build_second_upload :
    (pump (.stoppingAt 2) uploads { translator := .start .legacy }).2.delivery.history.length = 2 ∧
      (pump (.stoppingAt 2) uploads { translator := .start .legacy }).2.delivery.history =
        (pump .quiet uploads { translator := .start .legacy }).2.delivery.history.take 2 ∧
      (pump (.stoppingAt 2) uploads { translator := .start .legacy }).1 = .error .callbackFailed := by
  have hfull : (pump .quiet uploads { translator := .start .legacy }).2.delivery.history =
      [.contextUploadProgress 0 10, .contextUploadProgress 0 20] ++ [.contextUploadProgress 0 30] := by
    decide +kernel
  have hin : [.contextUploadProgress 0 10] ++ [.contextUploadProgress 0 20] <+:
      (pump .quiet uploads { translator := .start .legacy }).2.delivery.history := by
    rw [hfull]
    exact List.prefix_append _ _
  have hquiet : Handler.GoesOn .quiet := fun _ _ => rfl
  have hcancel : (Handler.stoppingAt 2).CancelsAs .quiet 2
      (pump (.stoppingAt 2) uploads { translator := .start .legacy }).2.delivery.history := by
    intro earlier event _ hlt
    have hnone : earlier.length = 0 := by omega
    simp [Handler.stoppingAt, Handler.quiet, hnone]
  obtain ⟨htold, hreaches⟩ := stop_ends_build .legacy uploads none false (.stoppingAt 2) 2
  have hstops := hreaches .quiet hquiet hcancel (Handler.stoppingAt_stopsFirstAt hin rfl)
  obtain ⟨hlength, herror, hfirst, _⟩ := htold hstops
  exact ⟨hlength, hfirst, herror⟩

end Translator

end BuildProgress
