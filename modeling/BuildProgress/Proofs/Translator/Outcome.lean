import BuildProgress.Proofs.Translator.Abort
import BuildProgress.Proofs.Translator.Verdict

/-!
# The outcome of a build

A build that nobody stops or cancels ends at the first message that is not accepted, with the error
of that message, and otherwise with the image that was named last. What it returns and what the
handler was told agree: the build has failed if and only if its last event says so.
-/

namespace BuildProgress

set_option autoImplicit false

/-- The handler leaves it to others to cancel the build. -/
def Handler.NeverCancels (handler : Handler) : Prop :=
  ∀ earlier event, (handler earlier event).cancel = false

namespace Delivery

variable {handler : Handler} {d : Delivery}

theorem emit_not_cancelled (hnever : handler.NeverCancels) (event : Event)
    (h : d.cancelled = false) : (emit handler event d).2.cancelled = false := by
  by_cases hdelivers : d.Delivers event
  · have hnote : (d.noteStart event).cancelled = false := by
      cases event <;> exact h
    rw [emit_of_delivers hdelivers]
    simp [handOver, hnote, hnever _ _]
  · rw [emit_of_not_delivers hdelivers]
    exact h

end Delivery

open Working

namespace Translator

variable {handler : Handler} {w : Working Translator}

theorem relay_of_not_cancelled (hnever : handler.NeverCancels) (h : w.delivery.cancelled = false)
    (messages : List BackendMessage) :
    relay handler messages w = Action.forEach (handle handler) messages w ∧
      (relay handler messages w).2.delivery.cancelled = false := by
  unfold relay
  induction messages generalizing w with
  | nil => exact ⟨rfl, h⟩
  | cons message messages ih =>
    have hafter : (handle handler message w).2.delivery.cancelled = false :=
      (handle_scripted message).heeds.keeps handler (·.cancelled = false)
        (fun event _ hd => Delivery.emit_not_cancelled hnever event hd) w h
    rw [Action.forEach_cons, Action.forEach_cons, unlessCancelled_of_not _ h]
    rcases hrun : handle handler message w with ⟨e | _, t⟩
    · rw [hrun] at hafter
      exact ⟨rfl, hafter⟩
    · rw [hrun] at hafter
      exact ih hafter

theorem pump_of_not_cancelled (hnever : handler.NeverCancels) (h : w.delivery.cancelled = false)
    (messages : List BackendMessage) : pump handler messages w =
      (Action.forEach (handle handler) messages >>= fun _ => finish handler) w := by
  obtain ⟨hrelay, hafter⟩ := relay_of_not_cancelled hnever h messages
  unfold pump
  rw [Action.bind_run, Action.bind_run]
  rw [hrelay] at hafter ⊢
  rcases hrun : Action.forEach (handle handler) messages w with ⟨e | _, t⟩
  · rfl
  · rw [hrun] at hafter
    exact unlessCancelled_of_not _ hafter

/-- The image that was named last by the messages. -/
def lastImage? (builder : Builder) (messages : List BackendMessage) : Option String :=
  (messages.filterMap (·.imageId? builder)).getLast?

theorem lastImage?_concat (builder : Builder) (messages : List BackendMessage)
    (message : BackendMessage) : lastImage? builder (messages ++ [message]) =
      (message.imageId? builder).or (lastImage? builder messages) := by
  unfold lastImage?
  cases himage : message.imageId? builder <;> simp [himage, List.getLast?_append]

/-- The translator of a build in which these messages were accepted. -/
structure HasAccepted (builder : Builder) (messages : List BackendMessage)
    (w : Working Translator) : Prop where
  ready : Ready w
  same : w.translator.builder = builder
  image : w.translator.imageId? = lastImage? builder messages

theorem HasAccepted.start (builder : Builder) (transcript : Option Transcript) :
    HasAccepted builder [] { translator := .start builder, transcript } where
  ready := .start builder {} transcript rfl
  same := by cases builder <;> rfl
  image := by cases builder <;> rfl

theorem HasAccepted.handle {builder : Builder} {done : List BackendMessage}
    (h : HasAccepted builder done w) (hgoes : handler.GoesOn) (message : BackendMessage) :
    Action.Ends (Translator.handle handler message) w
      (fun _ => HasAccepted builder (done ++ [message]))
      (fun e u => Delivery.Settled (u.delivery.phase = .receiving) u.delivery e) := by
  apply (h.ready.handle hgoes message).mono
  · rintro _ u ⟨hready, -, hbuilder, himage⟩
    refine ⟨hready, hbuilder.trans h.same, ?_⟩
    rw [himage, h.same, h.image, lastImage?_concat]
  · exact fun _ _ ⟨hsettled, _⟩ => hsettled.mono Ready.opened

theorem HasAccepted.handleAll (hgoes : handler.GoesOn) (builder : Builder)
    (transcript : Option Transcript) (messages : List BackendMessage) :
    Action.Ends (Action.forEach (Translator.handle handler) messages)
      { translator := .start builder, transcript } (fun _ => HasAccepted builder messages)
      (fun e u => Delivery.Settled (u.delivery.phase = .receiving) u.delivery e) := by
  apply Action.Ends.forEach (I := HasAccepted builder) _ (.start builder transcript)
  exact fun _ message _ _ _ hdone => hdone.handle hgoes message

theorem HasAccepted.run (hgoes : handler.GoesOn) (builder : Builder)
    (transcript : Option Transcript) (messages : List BackendMessage) :
    Action.Ends (Action.forEach (Translator.handle handler) messages >>= fun _ =>
        Translator.finish handler)
      { translator := .start builder, transcript }
      (fun _ u => u.delivery.phase = .receiving)
      (fun e u => Delivery.Settled (u.delivery.phase = .receiving) u.delivery e) := by
  apply Action.Ends.bind
  apply (handleAll hgoes builder transcript messages).mono_good
  intro _ u hu
  apply (hu.ready.finish hgoes).mono
  · exact fun _ _ ⟨hready, _⟩ => hready.opened
  · rintro e v ⟨hready, -, rfl⟩
    exact hready.opened

/-- A build that is neither stopped nor cancelled ends at the first message that is not accepted, with
its error. If all messages are accepted, then it ends with the image that was named last, or with the
error that none was. It ends with a failure if and only if the handler was told of just that failure,
and nothing is told after a failure. -/
theorem pump_outcome (hgoes : handler.GoesOn) (hnever : handler.NeverCancels) (builder : Builder)
    (transcript : Option Transcript) (messages : List BackendMessage) :
    let start : Working Translator := { translator := .start builder, transcript }
    let result := (pump handler messages start).1
    let told := (pump handler messages start).2.delivery.history
    ((∃ earlier message later before e now, messages = earlier ++ message :: later ∧
        Action.forEach (handle handler) earlier start = (.ok (), before) ∧
        handle handler message before = (.error e, now) ∧
        pump handler messages start = (.error e, now)) ∨
      ∃ after, Action.forEach (handle handler) messages start = (.ok (), after) ∧
        result = match lastImage? builder messages with
          | some id => .ok id
          | none => .error (.backendProtocol .noImageId)) ∧
    (∀ message, result = .error (.buildFailed message) ↔ .buildFailed message ∈ told) ∧
    ∀ message, .buildFailed message ∈ told → told.getLast? = some (.buildFailed message) := by
  intro start result told
  have hall := HasAccepted.handleAll hgoes builder transcript messages
  have hpump := pump_of_not_cancelled (w := start) hnever rfl messages
  have hkept : Delivery.Kept handler (pump handler messages start).2.delivery :=
    (pump_heeds messages).keeps handler _ (fun event _ hd => hd.emit event) start
      (.initial handler false)
  refine ⟨?_, fun message => ?_, fun message => hkept.last_failure⟩
  · rcases hrun : Action.forEach (handle handler) messages start with ⟨e | _, after⟩
    · left
      obtain ⟨earlier, message, later, before, heq, hearlier, hmessage⟩ :=
        Action.exists_of_forEach_error hrun
      exact ⟨earlier, message, later, before, e, after, heq, hearlier, hmessage,
        hpump.trans (Action.bind_run_error hrun)⟩
    · right
      obtain ⟨hready, _, himage⟩ := hall.good_of_run hrun
      have hresult : result = (finish handler after).1 :=
        congrArg Prod.fst (hpump.trans (Action.bind_run_ok hrun))
      refine ⟨after, rfl, ?_⟩
      rw [hresult, ← himage]
      rcases hfinish : finish handler after with ⟨e | id, last⟩
      · obtain ⟨_, hnone, rfl⟩ := (hready.finish hgoes).bad_of_run hfinish
        rw [hnone]
      · obtain ⟨_, hsome⟩ := (hready.finish hgoes).good_of_run hfinish
        rw [hsome]
  · have hends := HasAccepted.run hgoes builder transcript messages
    rcases hrun : pump handler messages start with ⟨e | id, last⟩
    · have hsettled := hends.bad_of_run (hpump.symm.trans hrun)
      rw [hrun] at hkept
      simp only [result, told, hrun, Except.error.injEq]
      exact hkept.failure_iff hsettled message
    · have hopen := hends.good_of_run (hpump.symm.trans hrun)
      rw [hrun] at hkept
      simp only [result, told, hrun, reduceCtorEq, false_iff]
      exact hkept.not_failed hopen message

/-- The second of the messages fails although it names an image. -/
def failingSecond : List BackendMessage :=
  [.response { stream := "Step 1/1 : FROM a" },
    .response { errorText := "boom", payload := some (.object [(some "ID", .string (some "image"))]) },
    .response { stream := "Step 2/2 : RUN b" }]

theorem pump_outcome_failing_second :
    let last := pump .quiet failingSecond { translator := .start .legacy }
    last.1 = .error (.buildFailed "boom") ∧
      last.2.delivery.history.getLast? = some (.buildFailed "boom") ∧
      ∃ earlier message later before e now, failingSecond = earlier ++ message :: later ∧
        Action.forEach (handle .quiet) earlier { translator := .start .legacy } = (.ok (), before) ∧
        handle .quiet message before = (.error e, now) ∧ last = (.error e, now) := by
  have hgoes : Handler.GoesOn .quiet := fun _ _ => rfl
  have hnever : Handler.NeverCancels .quiet := fun _ _ => rfl
  obtain ⟨hends, hfails, hlast⟩ := pump_outcome hgoes hnever .legacy none failingSecond
  have htold : .buildFailed "boom" ∈
      (pump .quiet failingSecond { translator := .start .legacy }).2.delivery.history := by
    decide +kernel
  have hresult := (hfails "boom").mpr htold
  refine ⟨hresult, hlast "boom" htold, ?_⟩
  rcases hends with hfirst | ⟨after, _, hnamed⟩
  · exact hfirst
  · rw [hresult] at hnamed
    split at hnamed <;> cases hnamed

end Translator

end BuildProgress
