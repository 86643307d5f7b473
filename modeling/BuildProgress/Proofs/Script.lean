import BuildProgress.Proofs.Guard

/-!
# What an action tells while the guard takes it

An action gives events to the guard and stops at the first one that the guard answers with an error.
So until then nothing depends on the handler: the events, the state in which each of them is given
and the end of the action are fixed beforehand. They are the script of the action.

What is said here of scripts holds of every action that follows one, whatever it does.
-/

namespace BuildProgress

set_option autoImplicit false

inductive Script (ρ α : Type) where
  | ends (outcome : Except BuildError α) (state : ρ)
  /-- In some state, an event is given to the guard. -/
  | tells (event : Event) (state : ρ) (rest : Script ρ α)

namespace Script

variable {ρ ρ' α β : Type}

def play (handler : Handler) : Script ρ α → Delivery → Except BuildError α × (ρ × Delivery)
  | ends outcome state, d => (outcome, (state, d))
  | tells event state rest, d =>
    match Delivery.emit handler event d with
    | (.ok (), d') => rest.play handler d'
    | (.error e, d') => (.error e, (state, d'))

def events : Script ρ α → List Event
  | ends _ _ => []
  | tells event _ rest => event :: rest.events

def ending : Script ρ α → Except BuildError α × ρ
  | ends outcome state => (outcome, state)
  | tells _ _ rest => rest.ending

def andThen (next : α → ρ → Script ρ β) : Script ρ α → Script ρ β
  | ends (.ok a) state => next a state
  | ends (.error e) state => ends (.error e) state
  | tells event state rest => tells event state (rest.andThen next)

def map (f : ρ → ρ') : Script ρ α → Script ρ' α
  | ends outcome state => ends outcome (f state)
  | tells event state rest => tells event (f state) (rest.map f)

variable {handler : Handler} {d : Delivery}

theorem play_andThen (next : α → ρ → Script ρ β) (script : Script ρ α) (d : Delivery) :
    (script.andThen next).play handler d = match script.play handler d with
      | (.ok a, (state, d')) => (next a state).play handler d'
      | (.error e, s) => (.error e, s) := by
  induction script generalizing d with
  | ends outcome state => cases outcome <;> rfl
  | tells event state rest ih =>
    simp only [andThen, play]
    rcases Delivery.emit handler event d with ⟨_ | _, d'⟩
    · rfl
    · exact ih d'

theorem ending_of_play_ok {script : Script ρ α} {a : α} {state : ρ} {d d' : Delivery}
    (h : script.play handler d = (.ok a, (state, d'))) : script.ending = (.ok a, state) := by
  induction script generalizing d with
  | ends outcome last =>
    obtain ⟨rfl, hlast⟩ := Prod.mk.inj h
    obtain ⟨rfl, _⟩ := Prod.mk.inj hlast
    rfl
  | tells event _ rest ih =>
    simp only [play] at h
    rcases hemit : Delivery.emit handler event d with ⟨_ | _, d''⟩
    · rw [hemit] at h
      cases h
    · rw [hemit] at h
      exact ih h

theorem events_andThen_ok {next : α → ρ → Script ρ β} {script : Script ρ α} {a : α} {state : ρ}
    (h : script.ending = (.ok a, state)) :
    (script.andThen next).events = script.events ++ (next a state).events ∧
      (script.andThen next).ending = (next a state).ending := by
  induction script with
  | ends outcome last =>
    obtain ⟨rfl, rfl⟩ := Prod.mk.inj h
    exact ⟨rfl, rfl⟩
  | tells event _ rest ih =>
    obtain ⟨hevents, hending⟩ := ih h
    exact ⟨congrArg (event :: ·) hevents, hending⟩

theorem events_andThen_error {next : α → ρ → Script ρ β} {script : Script ρ α} {e : BuildError}
    {state : ρ} (h : script.ending = (.error e, state)) :
    (script.andThen next).events = script.events ∧
      (script.andThen next).ending = (.error e, state) := by
  induction script with
  | ends outcome last =>
    obtain ⟨rfl, rfl⟩ := Prod.mk.inj h
    exact ⟨rfl, rfl⟩
  | tells event _ rest ih =>
    obtain ⟨hevents, hending⟩ := ih h
    exact ⟨congrArg (event :: ·) hevents, hending⟩

theorem play_map (f : ρ → ρ') (script : Script ρ α) (d : Delivery) :
    (script.map f).play handler d =
      ((script.play handler d).1, (f (script.play handler d).2.1, (script.play handler d).2.2)) := by
  induction script generalizing d with
  | ends outcome state => rfl
  | tells event state rest ih =>
    simp only [map, play]
    rcases Delivery.emit handler event d with ⟨_ | _, d'⟩
    · rfl
    · exact ih d'

/-- What every event that is given to the guard keeps, a script keeps. -/
theorem play_keeps {P : Delivery → Prop}
    (hemit : ∀ event d, P d → P (Delivery.emit handler event d).2) (script : Script ρ α) (h : P d) :
    P (script.play handler d).2.2 := by
  induction script generalizing d with
  | ends outcome state => exact h
  | tells event state rest ih =>
    have hnext := hemit event d h
    simp only [play]
    generalize Delivery.emit handler event d = r at hnext
    obtain ⟨_ | _, d'⟩ := r
    · exact hnext
    · exact ih hnext

/-- A script that the handler stops ends with just that. -/
theorem play_of_aborted (script : Script ρ α) (hopen : d.phase ≠ .aborted)
    (haborted : (script.play handler d).2.2.phase = .aborted) :
    (script.play handler d).1 = .error .callbackFailed := by
  induction script generalizing d with
  | ends outcome state => exact absurd haborted hopen
  | tells event state rest ih =>
    have hemit := Delivery.emit_of_aborted_after handler event hopen
    simp only [play] at haborted ⊢
    generalize Delivery.emit handler event d = r at haborted hemit
    obtain ⟨_ | _, d'⟩ := r
    · obtain rfl := Except.error.inj (hemit haborted)
      rfl
    · exact ih (fun h => nomatch hemit h) haborted

theorem history_play (script : Script ρ α) (d : Delivery) :
    d.history <+: (script.play handler d).2.2.history :=
  script.play_keeps (P := fun d' => d.history <+: d'.history)
    (fun event d' h => h.trans (Delivery.history_emit event d')) List.prefix_rfl

theorem history_tells (event : Event) (state : ρ) (rest : Script ρ α) (d : Delivery) :
    (Delivery.emit handler event d).2.history <+:
      ((tells event state rest).play handler d).2.2.history := by
  simp only [play]
  rcases Delivery.emit handler event d with ⟨_ | _, d'⟩
  · exact List.prefix_rfl
  · exact rest.history_play d'

/-- Two handlers are told the same up to the first event that they answer differently. -/
theorem play_eq_or_parts (h h' : Handler) (script : Script ρ α) (d : Delivery) :
    script.play h d = script.play h' d ∨
      h.PartsFrom h' (script.play h d).2.2.history (script.play h' d).2.2.history := by
  induction script generalizing d with
  | ends outcome state => exact Or.inl rfl
  | tells event state rest ih =>
    rcases Delivery.emit_eq_or_parts h h' event d with heq | hparts
    · simp only [play, heq]
      rcases Delivery.emit h' event d with ⟨_ | _, d'⟩
      · exact Or.inl rfl
      · exact ih d'
    · exact Or.inr (hparts.mono (history_tells event state rest d) (history_tells event state rest d))

/-- To a handler that never stops, everything is told as to the quiet one. -/
theorem play_calm (hgoes : handler.GoesOn) (script : Script ρ α) (d : Delivery) :
    script.play .quiet d.calm =
      ((script.play handler d).1, ((script.play handler d).2.1, (script.play handler d).2.2.calm)) := by
  induction script generalizing d with
  | ends outcome state => rfl
  | tells event state rest ih =>
    simp only [play, Delivery.emit_calm hgoes]
    rcases Delivery.emit handler event d with ⟨_ | _, d'⟩
    · rfl
    · exact ih d'

/-- A fitting script is told from first to last, or up to the event at which the handler stops. -/
theorem play_fitting {script : Script ρ α} (hkept : Delivery.Kept handler d)
    (hopen : d.phase = .receiving) (hfits : Delivery.Fitting d.history script.events) :
    ∃ told, told <+: script.events ∧ (script.play handler d).2.2.history = d.history ++ told ∧
      ((told = script.events ∧ (script.play handler d).1 = script.ending.1 ∧
          (script.play handler d).2.1 = script.ending.2) ∨
        (told ≠ [] ∧ (script.play handler d).1 = .error .callbackFailed ∧
          (script.play handler d).2.2.phase = .aborted)) := by
  induction script generalizing d with
  | ends outcome state =>
    exact ⟨[], List.prefix_rfl, by simp [play], Or.inl ⟨rfl, rfl, rfl⟩⟩
  | tells event state rest ih =>
    have hfirst := hfits [] event (by simp [events])
    have hdelivers : d.Delivers event := hkept.delivers_iff.mpr ⟨hopen, by simpa using hfirst.1⟩
    have hhistory : (Delivery.emit handler event d).2.history = d.history ++ [event] :=
      Delivery.emit_history hdelivers
    have hkept' := hkept.emit event
    have hcases := Delivery.emit_cases_of_delivers handler hdelivers
    simp only [play]
    generalize Delivery.emit handler event d = r at hhistory hkept' hcases
    obtain ⟨answer, d'⟩ := r
    rcases hcases with ⟨hstop, haborted⟩ | ⟨hok, hphase⟩
    · obtain rfl : answer = .error .callbackFailed := hstop
      exact ⟨[event], by simp [events], hhistory, Or.inr ⟨by simp, rfl, haborted⟩⟩
    · obtain rfl : answer = .ok () := hok
      cases hfailure : event.isFailure with
      | true =>
        -- Nothing follows a failure, so that the rest of the script only ends.
        have hlast : rest.events = [] := by simpa [events] using hfirst.2 hfailure
        cases rest with
        | tells _ _ _ => cases hlast
        | ends outcome last =>
          exact ⟨[event], List.prefix_rfl, hhistory, Or.inl ⟨rfl, rfl, rfl⟩⟩
      | false =>
        have hopen' : d'.phase = .receiving := by simpa [hfailure] using hphase
        have hfits' : Delivery.Fitting d'.history rest.events := by
          intro earlier later hin
          obtain ⟨hstarted, hlast⟩ := hfits (event :: earlier) later
            (List.cons_prefix_cons.mpr ⟨rfl, hin⟩)
          refine ⟨fun step heq => ?_, fun hfail => ?_⟩
          · have hhistory' : d'.history = d.history ++ [event] := hhistory
            rw [hhistory', List.append_assoc]
            exact hstarted step heq
          · simpa [events] using hlast hfail
        obtain ⟨told, hin, htold, hend⟩ := ih hkept' hopen' hfits'
        refine ⟨event :: told, List.cons_prefix_cons.mpr ⟨rfl, hin⟩, ?_, ?_⟩
        · have hhistory' : d'.history = d.history ++ [event] := hhistory
          simp only
          rw [htold, hhistory', List.append_assoc, List.singleton_append]
        · rcases hend with ⟨hall, hrest⟩ | ⟨_, hrest⟩
          · exact Or.inl ⟨congrArg (event :: ·) hall, hrest⟩
          · exact Or.inr ⟨by simp, hrest⟩

/-- Once delivery has ended nothing is told any more, and the guard answers in one way only. -/
theorem play_ended (script : Script ρ α) (hended : d.phase ≠ .receiving) :
    (script.play handler d).2.2 = d ∧ ((script.play handler d).1 = .error .callbackFailed ∨
      (script.play handler d).1 = script.ending.1) := by
  induction script with
  | ends outcome state => exact ⟨rfl, Or.inr rfl⟩
  | tells event state rest ih =>
    have hnot : ¬ d.Delivers event := fun hdelivers => hended hdelivers.1
    simp only [play]
    rw [Delivery.emit_eq_withheld hnot]
    cases hphase : d.phase with
    | receiving => exact absurd hphase hended
    | aborted => simp [Delivery.withheld, hphase]
    | terminated => simpa [Delivery.withheld, hphase, ending] using ih

end Script

end BuildProgress
