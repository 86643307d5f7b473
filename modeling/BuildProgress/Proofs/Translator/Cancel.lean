import BuildProgress.Proofs.Translator.Abort

/-!
# A build that is cancelled

The caller may cancel a build from elsewhere as well as in the answer to an event. What the
translators do with a message does not depend on it: the message at hand is handled to its end, and
nothing is begun after it.
-/

namespace BuildProgress

set_option autoImplicit false

namespace Delivery

/-- The same guard in a build that the caller has cancelled. -/
def cancel (d : Delivery) : Delivery :=
  { d with cancelled := true }

theorem emit_cancel (handler : Handler) (event : Event) (d : Delivery) :
    emit handler event d.cancel =
      ((emit handler event d).1, (emit handler event d).2.cancel) := by
  by_cases hdelivers : d.Delivers event
  · have hdelivers' : d.cancel.Delivers event := hdelivers
    have hnote : d.cancel.noteStart event = (d.noteStart event).cancel := by
      cases event <;> rfl
    rw [emit_of_delivers hdelivers, emit_of_delivers hdelivers', hnote]
    simp [handOver, cancel]
  · have hdelivers' : ¬ d.cancel.Delivers event := hdelivers
    rw [emit_eq_withheld hdelivers, emit_eq_withheld hdelivers']
    rfl

end Delivery

theorem Script.play_cancel {ρ α : Type} (handler : Handler) (script : Script ρ α) (d : Delivery) :
    script.play handler d.cancel =
      ((script.play handler d).1,
        ((script.play handler d).2.1, (script.play handler d).2.2.cancel)) := by
  induction script generalizing d with
  | ends outcome state => rfl
  | tells event state rest ih =>
    simp only [play, Delivery.emit_cancel]
    rcases Delivery.emit handler event d with ⟨_ | _, d'⟩
    · rfl
    · exact ih d'

namespace Working

variable {σ α : Type}

def cancel (w : Working σ) : Working σ :=
  { w with delivery := { w.delivery with cancelled := true } }

theorem calm_cancel (w : Working σ) : w.cancel.calm = w.calm := rfl

theorem cancel_cancel (w : Working σ) : w.cancel.cancel = w.cancel := rfl

/-- Whether the build is cancelled makes no difference to what is done with a message. -/
theorem cancel_of_scripted {act : Handler → Act σ α} (h : Scripted assemble act) (handler : Handler)
    (w : Working σ) : act handler w.cancel = ((act handler w).1, (act handler w).2.cancel) := by
  obtain ⟨script, hscript⟩ := h (w.translator, w.transcript)
  have hrun : act handler w = _ := hscript handler w.delivery
  have hcancelled : act handler w.cancel = _ := hscript handler w.delivery.cancel
  rw [hrun, hcancelled, script.play_cancel handler]
  rfl

/-- The same, unless the caller has cancelled the build from elsewhere. -/
def Attended (w now : Working σ) : Prop :=
  now = w ∨ now = w.cancel

namespace Attended

variable {w now : Working σ}

theorem refl (w : Working σ) : w.Attended w := Or.inl rfl

theorem cancel (h : w.Attended now) : w.Attended now.cancel := by
  rcases h with rfl | rfl
  · exact Or.inr rfl
  · exact Or.inr (cancel_cancel w)

theorem history (h : w.Attended now) : now.delivery.history = w.delivery.history := by
  rcases h with rfl | rfl <;> rfl

theorem transcript (h : w.Attended now) : now.transcript = w.transcript := by
  rcases h with rfl | rfl <;> rfl

theorem eq_of_not_cancelled (h : w.Attended now) (hopen : now.delivery.cancelled = false) :
    now = w := by
  rcases h with rfl | rfl
  · rfl
  · cases hopen

theorem run {act : Handler → Act σ α} (hscripted : Scripted assemble act) {handler : Handler}
    {outcome : Except BuildError α} {after : Working σ} (h : w.Attended now)
    (hrun : act handler now = (outcome, after)) :
    ∃ t, act handler w = (outcome, t) ∧ t.Attended after := by
  rcases h with rfl | rfl
  · exact ⟨after, hrun, .refl after⟩
  · rw [cancel_of_scripted hscripted] at hrun
    obtain ⟨rfl, rfl⟩ := Prod.mk.inj hrun
    exact ⟨_, rfl, Or.inr rfl⟩

end Attended

end Working

open Working

namespace Translator

/-- Handles a message while the caller, or not, cancels the build from elsewhere. -/
def handleAttended (handler : Handler) (item : BackendMessage × Bool) : Act Translator Unit :=
  fun w =>
    let (outcome, after) := handle handler item.1 w
    (outcome, if item.2 then after.cancel else after)

def relayAttended (handler : Handler) (items : List (BackendMessage × Bool)) : Act Translator Unit :=
  Action.forEach (fun item => unlessCancelled (handleAttended handler item)) items

def pumpAttended (handler : Handler) (items : List (BackendMessage × Bool)) :
    Act Translator String := do
  relayAttended handler items
  unlessCancelled (finish handler)

variable {handler : Handler} {items earlier later : List (BackendMessage × Bool)}
  {item : BackendMessage × Bool} {w before : Working Translator}

theorem relayAttended_unattended (handler : Handler) (messages : List BackendMessage) :
    relayAttended handler (messages.map fun message => (message, false)) =
      relay handler messages := by
  unfold relayAttended relay
  induction messages with
  | nil => rfl
  | cons message messages ih =>
    funext w
    rw [List.map_cons, Action.forEach_cons, Action.forEach_cons, ih]
    rfl

/-- Without anyone else, a build is cancelled in the answers of the handler only. -/
theorem pumpAttended_unattended (handler : Handler) (messages : List BackendMessage) :
    pumpAttended handler (messages.map fun message => (message, false)) =
      pump handler messages := by
  unfold pumpAttended pump
  rw [relayAttended_unattended]

theorem pumpAttended_of_cancelled (handler : Handler) (items : List (BackendMessage × Bool))
    (h : w.delivery.cancelled = true) : pumpAttended handler items w = (.error .cancelled, w) :=
  forEach_unlessCancelled_of_cancelled (handleAttended handler) items (finish handler) h

theorem pumpAttended_append (h : relayAttended handler earlier w = (.ok (), before)) :
    pumpAttended handler (earlier ++ later) w = pumpAttended handler later before := by
  unfold pumpAttended
  rw [Action.bind_run, Action.bind_run]
  unfold relayAttended at h ⊢
  rw [Action.forEach_append, h]

theorem handleAttended_calm (hgoes : handler.GoesOn) (item : BackendMessage × Bool)
    (w : Working Translator) : handle .quiet item.1 w.calm =
      ((handleAttended handler item w).1, (handleAttended handler item w).2.calm) := by
  rw [calm_of_scripted (handle_scripted item.1) hgoes]
  unfold handleAttended
  dsimp only
  split
  · rw [calm_cancel]
  · rfl

theorem relayAttended_calm (hgoes : handler.GoesOn)
    (h : relayAttended handler items w = (.ok (), before)) :
    relay .quiet (items.map Prod.fst) w.calm = (.ok (), before.calm) := by
  unfold relayAttended at h
  unfold relay
  induction items generalizing w with
  | nil =>
    rw [Action.forEach_nil] at h
    obtain ⟨_, rfl⟩ := Prod.mk.inj h
    rfl
  | cons item items ih =>
    rw [Action.forEach_cons] at h
    rw [List.map_cons, Action.forEach_cons, unlessCancelled_of_not _ rfl,
      handleAttended_calm hgoes item w]
    cases hcancelled : w.delivery.cancelled with
    | true =>
      rw [unlessCancelled_of_cancelled _ hcancelled] at h
      cases h
    | false =>
      rw [unlessCancelled_of_not _ hcancelled] at h
      rcases hrun : handleAttended handler item w with ⟨e | _, t⟩
      · rw [hrun] at h
        cases h
      · rw [hrun] at h
        exact ih h

theorem relay_concat_calm (hgoes : handler.GoesOn)
    (h : relayAttended handler earlier w = (.ok (), before)) (item : BackendMessage × Bool) :
    relay .quiet ((earlier ++ [item]).map Prod.fst) w.calm =
      ((handleAttended handler item before).1, (handleAttended handler item before).2.calm) := by
  have hearlier := relayAttended_calm hgoes h
  unfold relay at hearlier ⊢
  rw [List.map_append, List.map_singleton, Action.forEach_concat hearlier,
    unlessCancelled_of_not _ rfl, handleAttended_calm hgoes item before]

/-- What a build answers that was cancelled while a message was handled with this outcome. -/
def interrupted : Except BuildError Unit → Except BuildError String
  | .ok () => .error .cancelled
  | .error e => .error e

theorem pumpAttended_of_cancelled_while {outcome : Except BuildError Unit}
    {now : Working Translator} (hopen : w.delivery.cancelled = false)
    (hhandle : handleAttended handler item w = (outcome, now))
    (hcancelled : now.delivery.cancelled = true) (later : List (BackendMessage × Bool)) :
    pumpAttended handler (item :: later) w = (interrupted outcome, now) := by
  cases outcome with
  | ok _ =>
    have hrelay : relayAttended handler [item] w = (.ok (), now) := by
      unfold relayAttended
      rw [Action.forEach_cons, unlessCancelled_of_not _ hopen, hhandle]
      rfl
    have hrest : pumpAttended handler ([item] ++ later) w = pumpAttended handler later now :=
      pumpAttended_append hrelay
    exact hrest.trans (pumpAttended_of_cancelled handler later hcancelled)
  | error e =>
    have hrelay : relayAttended handler (item :: later) w = (.error e, now) := by
      unfold relayAttended
      rw [Action.forEach_cons, unlessCancelled_of_not _ hopen, hhandle]
    unfold pumpAttended
    rw [Action.bind_run_error hrelay]
    rfl

/-- A handler never stops. If the build is cancelled beforehand, then nothing happens. If it is
cancelled while a message is handled, by the handler or from elsewhere, then this message is handled
to its end and nothing else happens: what is told is what the messages up to this one tell in a build
that nobody cancels, and the result is the failure of this message or that the build was cancelled.
So an image is named only if nobody had cancelled the build before it was finished. -/
theorem cancellation_ends_build (builder : Builder) (transcript : Option Transcript)
    (handler : Handler) (hgoes : handler.GoesOn) (items : List (BackendMessage × Bool)) :
    let start : Working Translator := { translator := .start builder, transcript }
    (∀ messages, pumpAttended handler (messages.map fun message => (message, false)) =
      pump handler messages) ∧
    pumpAttended handler items start.cancel = (.error .cancelled, start.cancel) ∧
    (∀ earlier item later before outcome now, items = earlier ++ item :: later →
      relayAttended handler earlier start = (.ok (), before) → before.delivery.cancelled = false →
      handleAttended handler item before = (outcome, now) → now.delivery.cancelled = true →
        pumpAttended handler items start = (interrupted outcome, now) ∧
        relay .quiet ((earlier ++ [item]).map Prod.fst) start = (outcome, now.calm)) ∧
    (∀ id last, pumpAttended handler items start = (.ok id, last) →
      ∃ before, relayAttended handler items start = (.ok (), before) ∧
        before.delivery.cancelled = false ∧ finish handler before = (.ok id, last)) := by
  intro start
  refine ⟨pumpAttended_unattended handler, pumpAttended_of_cancelled handler items rfl, ?_, ?_⟩
  · rintro earlier item later before outcome now rfl hrelay hopen hhandle hcancelled
    constructor
    · rw [pumpAttended_append hrelay]
      exact pumpAttended_of_cancelled_while hopen hhandle hcancelled later
    · have hcalm := relay_concat_calm hgoes hrelay item
      rw [hhandle] at hcalm
      exact hcalm
  · intro id last hok
    unfold pumpAttended at hok
    rcases hrelay : relayAttended handler items start with ⟨e | _, before⟩
    · rw [Action.bind_run_error hrelay] at hok
      cases hok
    · rw [Action.bind_run_ok hrelay] at hok
      refine ⟨before, rfl, ?_⟩
      cases hcancelled : before.delivery.cancelled with
      | true =>
        rw [unlessCancelled_of_cancelled _ hcancelled] at hok
        cases hok
      | false =>
        rw [unlessCancelled_of_not _ hcancelled] at hok
        exact ⟨rfl, hok⟩

/-- The only step of a build, with a progress report and the image. -/
def onlyStep : BackendMessage :=
  .response
    { stream := "Step 1/1 : FROM a"
      status := "Pulling"
      payload := some (.object [(some "ID", .string (some "image"))]) }

def canceller : Handler := fun _ _ => { cancel := true }

/-- The handler cancels at the first event of the last message, which names the image. -/
theorem cancellation_ends_build_image_named :
    let last := pumpAttended canceller [(onlyStep, false)] { translator := .start .legacy }
    last.1 = .error .cancelled ∧ last.2.delivery.history.length = 2 ∧
      last.2.translator = .legacy { step := 1, transfers := true, imageId := some "image" } := by
  let start : Working Translator := { translator := .start .legacy }
  let now := (handle canceller onlyStep start).2
  have hgoes : canceller.GoesOn := fun _ _ => rfl
  have hhandle : handleAttended canceller (onlyStep, false) start = (.ok (), now) := rfl
  have hcancelled : now.delivery.cancelled = true := by decide +kernel
  obtain ⟨_, _, hwhile, _⟩ :=
    cancellation_ends_build .legacy none canceller hgoes [(onlyStep, false)]
  obtain ⟨hlast, _⟩ := hwhile [] _ [] start (.ok ()) now rfl rfl rfl hhandle hcancelled
  intro last
  have heq : last = (.error .cancelled, now) := hlast
  rw [heq]
  exact ⟨rfl, by decide +kernel, by decide +kernel⟩

end Translator

end BuildProgress
