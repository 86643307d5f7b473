import BuildProgress.Proofs.Script

/-!
# Actions that follow scripts

An action runs on states of some kind, which hold a guard: `mk state d` is the state with the guard
`d`. What the action does is told by a script for every `state`, the same for all handlers and all
guards. Scripts of actions that are carried out one after the other are put together.
-/

namespace BuildProgress

set_option autoImplicit false

variable {ρ ρ' τ τ' α β : Type} {mk : ρ → Delivery → τ} {mk' : ρ' → Delivery → τ'}

def Follows (mk : ρ → Delivery → τ) (act : Handler → Action BuildError τ α) (state : ρ)
    (script : Script ρ α) : Prop :=
  ∀ handler d, act handler (mk state d) =
    ((script.play handler d).1, mk (script.play handler d).2.1 (script.play handler d).2.2)

/-- In this state an action gives these events to the guard and comes to this end. -/
def Tells (mk : ρ → Delivery → τ) (act : Handler → Action BuildError τ α) (state : ρ)
    (events : List Event) (ending : Except BuildError α × ρ) : Prop :=
  ∃ script, Follows mk act state script ∧ script.events = events ∧ script.ending = ending

def Scripted (mk : ρ → Delivery → τ) (act : Handler → Action BuildError τ α) : Prop :=
  ∀ state, ∃ script, Follows mk act state script

theorem Follows.andThen {act : Handler → Action BuildError τ α}
    {next : Handler → α → Action BuildError τ β} {state : ρ} {script : Script ρ α}
    {continued : α → ρ → Script ρ β} (h : Follows mk act state script)
    (hnext : ∀ a state', script.ending = (.ok a, state') →
      Follows mk (fun handler => next handler a) state' (continued a state')) :
    Follows mk (fun handler => act handler >>= next handler) state (script.andThen continued) := by
  intro handler d
  have hrun := h handler d
  change (act handler >>= next handler) (mk state d) = _
  rw [Script.play_andThen]
  rcases hplay : script.play handler d with ⟨_ | a, state', d'⟩
  · rw [hplay] at hrun
    exact Action.bind_run_error hrun
  · rw [hplay] at hrun
    exact (Action.bind_run_ok hrun).trans (hnext a state' (Script.ending_of_play_ok hplay) handler d')

/-- An action that does with the guard what another one does, and keeps its state in another form. -/
theorem Follows.map {act : Handler → Action BuildError τ α} {act' : Handler → Action BuildError τ' α}
    {state : ρ} {state' : ρ'} {script : Script ρ α} (f : ρ → ρ') (g : τ → τ')
    (h : Follows mk act state script)
    (hact : ∀ handler d, act' handler (mk' state' d) =
      ((act handler (mk state d)).1, g (act handler (mk state d)).2))
    (hmk : ∀ state d, g (mk state d) = mk' (f state) d) :
    Follows mk' act' state' (script.map f) := by
  intro handler d
  rw [hact, h handler d, Script.play_map, hmk]

namespace Tells

theorem silent {act : Handler → Action BuildError τ α} {state state' : ρ}
    {outcome : Except BuildError α} (h : ∀ handler d, act handler (mk state d) = (outcome, mk state' d)) :
    Tells mk act state [] (outcome, state') :=
  ⟨.ends outcome state', h, rfl, rfl⟩

theorem run_of_silent {act : Handler → Action BuildError τ α} {state : ρ}
    {ending : Except BuildError α × ρ} (h : Tells mk act state [] ending) (handler : Handler)
    (d : Delivery) : act handler (mk state d) = (ending.1, mk ending.2 d) := by
  obtain ⟨script, hfollows, hnone, rfl⟩ := h
  cases script with
  | ends outcome state' => exact hfollows handler d
  | tells _ _ _ => cases hnone

theorem report (event : Event) (state : ρ) :
    Tells Prod.mk (fun handler => BuildProgress.report handler event) state [event] (.ok (), state) := by
  refine ⟨.tells event state (.ends (.ok ()) state), ?_, rfl, rfl⟩
  intro handler d
  simp only [BuildProgress.report, Action.within, Script.play]
  rcases Delivery.emit handler event d with ⟨_ | _, d'⟩ <;> rfl

variable {act : Handler → Action BuildError τ α} {next : Handler → α → Action BuildError τ β}
  {state state' : ρ} {events events' : List Event} {ending : Except BuildError β × ρ}

theorem bind_ok {a : α} (h : Tells mk act state events (.ok a, state'))
    (hnext : Tells mk (fun handler => next handler a) state' events' ending) :
    Tells mk (fun handler => act handler >>= next handler) state (events ++ events') ending := by
  obtain ⟨script, hfollows, rfl, hend⟩ := h
  obtain ⟨continued, hfollows', rfl, rfl⟩ := hnext
  let after : α → ρ → Script ρ β := fun _ _ => continued
  refine ⟨script.andThen after, hfollows.andThen ?_, Script.events_andThen_ok hend⟩
  intro a' state'' hend'
  obtain ⟨hok, rfl⟩ := Prod.mk.inj (hend.symm.trans hend')
  obtain rfl := Except.ok.inj hok
  exact hfollows'

theorem bind_error {e : BuildError} (h : Tells mk act state events (.error e, state')) :
    Tells mk (fun handler => act handler >>= next handler) state events (.error e, state') := by
  obtain ⟨script, hfollows, rfl, hend⟩ := h
  let continued : α → ρ → Script ρ β := fun _ _ => .ends (.error e) state'
  refine ⟨script.andThen continued, hfollows.andThen ?_, Script.events_andThen_error hend⟩
  intro a state'' hend'
  obtain ⟨hok, _⟩ := Prod.mk.inj (hend.symm.trans hend')
  cases hok

theorem kept {handler : Handler} {d : Delivery} {ending : Except BuildError α × ρ}
    {act : Handler → Reporting ρ α} (h : Tells Prod.mk act state events ending)
    (hkept : Delivery.Kept handler d) : Delivery.Kept handler (act handler (state, d)).2.2 := by
  obtain ⟨script, hfollows, _⟩ := h
  rw [hfollows handler d]
  exact script.play_keeps (fun event d hkept => hkept.emit event) hkept

/-- While delivery goes on, fitting events are told up to the one at which the handler stops. -/
theorem delivered {handler : Handler} {d : Delivery} {ending : Except BuildError α × ρ}
    {act : Handler → Reporting ρ α} (h : Tells Prod.mk act state events ending)
    (hkept : Delivery.Kept handler d) (hopen : d.phase = .receiving)
    (hfits : Delivery.Fitting d.history events) :
    ∃ new, new <+: events ∧ (act handler (state, d)).2.2.history = d.history ++ new ∧
      ((new = events ∧ (act handler (state, d)).1 = ending.1 ∧
          (act handler (state, d)).2.1 = ending.2) ∨
        (new ≠ [] ∧ (act handler (state, d)).1 = .error .callbackFailed ∧
          (act handler (state, d)).2.2.phase = .aborted)) := by
  obtain ⟨script, hfollows, rfl, rfl⟩ := h
  rw [hfollows handler d]
  exact Script.play_fitting hkept hopen hfits

/-- If the handler has not stopped by then, all is told. -/
theorem delivered_all {handler : Handler} {d : Delivery} {ending : Except BuildError α × ρ}
    {act : Handler → Reporting ρ α} (h : Tells Prod.mk act state events ending)
    (hkept : Delivery.Kept handler d) (hopen : d.phase = .receiving)
    (hfits : Delivery.Fitting d.history events)
    (hopen' : (act handler (state, d)).2.2.phase = .receiving) :
    (act handler (state, d)).2.2.history = d.history ++ events ∧
      (act handler (state, d)).2.1 = ending.2 := by
  obtain ⟨new, _, hhistory, ⟨rfl, _, hstate⟩ | ⟨_, _, haborted⟩⟩ := h.delivered hkept hopen hfits
  · exact ⟨hhistory, hstate⟩
  · cases haborted.symm.trans hopen'

theorem withheld {handler : Handler} {d : Delivery} {ending : Except BuildError α × ρ}
    {act : Handler → Reporting ρ α} (h : Tells Prod.mk act state events ending)
    (hended : d.phase ≠ .receiving) : (act handler (state, d)).2.2 = d ∧
      ((act handler (state, d)).1 = .error .callbackFailed ∨
        (act handler (state, d)).1 = ending.1) := by
  obtain ⟨script, hfollows, _, rfl⟩ := h
  rw [hfollows handler d]
  exact script.play_ended hended

/-- An action that is carried out only on a condition, with what comes after it. -/
theorem whenever {c : Prop} [Decidable c] {act : Handler → Action BuildError τ Unit}
    {next : Handler → Unit → Action BuildError τ β}
    (hact : c → Tells mk act state events (.ok (), state'))
    (hskip : ¬ c → events = [] ∧ state' = state)
    (hnext : Tells mk (fun handler => next handler ()) state' events' ending) :
    Tells mk (fun handler => if c then act handler >>= next handler else next handler ()) state
      (events ++ events') ending := by
  by_cases h : c
  · simp only [if_pos h]
    exact (hact h).bind_ok hnext
  · obtain ⟨rfl, rfl⟩ := hskip h
    simp only [if_neg h]
    exact hnext

section Reporting

variable {σ γ : Type} {s : σ} {next : Handler → γ → Reporting σ β}
  {ending : Except BuildError β × σ}

theorem after_look (f : σ → γ)
    (hnext : Tells Prod.mk (fun handler => next handler (f s)) s events ending) :
    Tells Prod.mk (fun handler => look f >>= next handler) s events ending := by
  have hlook : Tells Prod.mk (fun _ => look f) s [] (.ok (f s), s) := silent fun _ _ => rfl
  exact hlook.bind_ok hnext

theorem after_change (f : σ → σ) {next : Handler → Unit → Reporting σ β}
    (hnext : Tells Prod.mk (fun handler => next handler ()) (f s) events ending) :
    Tells Prod.mk (fun handler => change f >>= next handler) s events ending := by
  have hchange : Tells Prod.mk (fun _ => change f) s [] (.ok (), f s) := silent fun _ _ => rfl
  exact hchange.bind_ok hnext

theorem reportFailure (message : String) (s : σ) :
    Tells Prod.mk (fun handler => BuildProgress.reportFailure handler message) s
      [.buildFailed message] (.error (.buildFailed message), s) := by
  unfold BuildProgress.reportFailure
  have hfail : Tells Prod.mk (fun _ : Handler => (Action.fail (.buildFailed message) : Reporting σ Unit))
      s [] (.error (.buildFailed message), s) := silent fun _ _ => rfl
  exact (report (.buildFailed message) s).bind_ok hfail

end Reporting

end Tells

namespace Scripted

theorem silent {act : Handler → Action BuildError τ α} (outcome : ρ → Except BuildError α)
    (f : ρ → ρ) (h : ∀ handler state d, act handler (mk state d) = (outcome state, mk (f state) d)) :
    Scripted mk act :=
  fun state => ⟨.ends (outcome state) (f state), fun handler d => h handler state d⟩

theorem pure (a : α) : Scripted mk (fun _ => (Pure.pure a : Action BuildError τ α)) :=
  silent (fun _ => .ok a) id fun _ _ _ => rfl

theorem ofExcept (r : Except BuildError α) :
    Scripted mk (fun _ => (Action.ofExcept r : Action BuildError τ α)) :=
  silent (fun _ => r) id fun _ _ _ => rfl

theorem look (f : ρ → α) : Scripted Prod.mk (fun _ => BuildProgress.look f) :=
  silent (fun state => .ok (f state)) id fun _ _ _ => rfl

theorem change (f : ρ → ρ) : Scripted Prod.mk (fun _ => BuildProgress.change f) :=
  silent (fun _ => .ok ()) f fun _ _ _ => rfl

theorem bind {act : Handler → Action BuildError τ α} {next : Handler → α → Action BuildError τ β}
    (hact : Scripted mk act) (hnext : ∀ a, Scripted mk (fun handler => next handler a)) :
    Scripted mk (fun handler => act handler >>= next handler) := by
  intro state
  obtain ⟨script, hscript⟩ := hact state
  choose continued hcontinued using hnext
  exact ⟨script.andThen continued, hscript.andThen fun a state' _ => hcontinued a state'⟩

theorem forEach {f : Handler → α → Action BuildError τ Unit}
    (h : ∀ a, Scripted mk (fun handler => f handler a)) (xs : List α) :
    Scripted mk (fun handler => Action.forEach (f handler) xs) := by
  induction xs with
  | nil => exact pure ()
  | cons x xs ih => exact (h x).bind fun _ => ih

theorem report {σ : Type} (event : Event) :
    Scripted Prod.mk (fun handler => (BuildProgress.report handler event : Reporting σ Unit)) := by
  intro state
  obtain ⟨script, hscript, _⟩ := Tells.report event state
  exact ⟨script, hscript⟩

theorem reportFailure {σ : Type} (message : String) :
    Scripted Prod.mk (fun handler => (BuildProgress.reportFailure handler message : Reporting σ Unit)) := by
  intro state
  obtain ⟨script, hscript, _⟩ := Tells.reportFailure message state
  exact ⟨script, hscript⟩

end Scripted

end BuildProgress
