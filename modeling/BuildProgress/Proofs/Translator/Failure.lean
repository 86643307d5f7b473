import BuildProgress.Proofs.Legacy.Story
import BuildProgress.Proofs.Translator.Abort
import BuildProgress.Proofs.Translator.Verdict

/-!
# Messages that report an error

A message may report an error beside everything else that it carries. The legacy builder's messages
are read to their end, so that the error always fails the build. Of a message of BuildKit's the
image or the trace is read first: if that is refused, the build ends with the refusal, and the error
that the message reports is lost.
-/

namespace BuildProgress

set_option autoImplicit false

open Working

/-- Nothing opens delivery again. -/
theorem Heeds.open_before {σ α : Type} {act : Handler → Act σ α} (h : Heeds act) {handler : Handler}
    {w : Working σ} (hopen : (act handler w).2.delivery.phase = .receiving) :
    w.delivery.phase = .receiving := by
  by_contra hended
  refine h.keeps handler (·.phase ≠ .receiving) (fun event d hd => ?_) w hended hopen
  have hsame : (Delivery.emit handler event d).2 = d :=
    Delivery.emit_of_not_delivers fun hdelivers => hd hdelivers.1
  rwa [hsame]

namespace Translator

/-- What a translator that delivers to this handler comes to, whatever its messages end with. -/
inductive Reached (handler : Handler) : Working Translator → Prop where
  | start (builder : Builder) (cancelled : Bool) (transcript : Option Transcript) :
      Reached handler { translator := .start builder, delivery := { cancelled }, transcript }
  | handled {w : Working Translator} (before : Reached handler w) (message : BackendMessage) :
      Reached handler (handle handler message w).2
  | finished {w : Working Translator} (before : Reached handler w) :
      Reached handler (finish handler w).2

namespace Reached

variable {handler : Handler} {w : Working Translator}

theorem kept (h : Reached handler w) : Delivery.Kept handler w.delivery := by
  induction h with
  | start builder cancelled transcript => exact .initial handler cancelled
  | handled _ message ih =>
    exact (handle_scripted message).heeds.keeps handler _ (fun event _ hd => hd.emit event) _ ih
  | finished _ ih => exact finish_scripted.heeds.keeps handler _ (fun event _ hd => hd.emit event) _ ih

theorem ready (h : Reached handler w) (hgoes : handler.GoesOn)
    (hopen : w.delivery.phase = .receiving) : Ready w := by
  induction h with
  | start builder cancelled transcript => exact .start builder { cancelled } transcript rfl
  | @handled w before message ih =>
    have hready : Ready w := ih ((handle_scripted message).heeds.open_before hopen)
    have hends := hready.handle hgoes message
    rcases hrun : handle handler message w with ⟨e | _, u⟩
    · rw [hrun] at hopen
      exact (hends.bad_of_run hrun).1.order_of_open hopen
    · exact (hends.good_of_run hrun).1
  | @finished w before ih =>
    have hready : Ready w := ih (finish_scripted.heeds.open_before hopen)
    have hends := hready.finish hgoes
    rcases hrun : finish handler w with ⟨e | _, u⟩
    · exact (hends.bad_of_run hrun).1
    · exact (hends.good_of_run hrun).1

end Reached

variable {handler : Handler} {w : Working Translator}

theorem failure?_isSome (translator : Translator) {m : Message} (h : m.failure?.isSome = true) :
    (translator.failure? (.response m)).isSome = true := by
  cases translator with
  | legacy parser => exact h
  | graph state =>
    have hor : ((GraphTranslator.batchFailure? m).or m.failure?).isSome = true := by
      rw [Option.isSome_or, h, Bool.or_true]
    exact hor

/-- A message that reports an error fails the build, and the handler is told last of the failure,
unless what it carries is refused: then the build ends with the refusal and is not told of any
failure. The legacy builder refuses nothing but a step number that does not fit. -/
theorem reported_error_fails (hgoes : handler.GoesOn) (hreached : Reached handler w)
    (hopen : w.delivery.phase = .receiving) {m : Message} (hreports : m.failure?.isSome = true) :
    let result := (handle handler (.response m) w).1
    let told := (handle handler (.response m) w).2.delivery.history
    (w.translator.refusal? (.response m) = none → ∃ message,
      w.translator.failure? (.response m) = some message ∧
      result = .error (.buildFailed message) ∧
      told.getLast? = some (.buildFailed message)) ∧
    (∀ e, w.translator.refusal? (.response m) = some e → result = .error e ∧
      ∀ message, e ≠ .buildFailed message ∧ .buildFailed message ∉ told) ∧
    (w.translator.builder = .legacy → ¬ Legacy.Oversized m.stream →
      w.translator.refusal? (.response m) = none) := by
  intro result told
  have hends := (hreached.ready hgoes hopen).handle hgoes (.response m)
  have hkept : Delivery.Kept handler (handle handler (.response m) w).2.delivery :=
    (hreached.handled (.response m)).kept
  have hfails := failure?_isSome w.translator hreports
  obtain ⟨e, after, hrun⟩ : ∃ e after, handle handler (.response m) w = (.error e, after) := by
    rcases hrun : handle handler (.response m) w with ⟨e | _, after⟩
    · exact ⟨e, after, rfl⟩
    · obtain ⟨_, hjudge, _⟩ := hends.good_of_run hrun
      rw [(judge_eq_ok_iff.mp hjudge).2] at hfails
      cases hfails
  obtain ⟨hsettled, hjudge⟩ := hends.bad_of_run hrun
  rw [hrun] at hkept
  have hresult : result = .error e := congrArg Prod.fst hrun
  have htold : told = after.delivery.history := congrArg (·.2.delivery.history) hrun
  rw [hresult, htold]
  refine ⟨fun hnone => ?_, fun refusal hsome => ?_, ?_⟩
  · obtain ⟨message, hmessage⟩ := Option.isSome_iff_exists.mp hfails
    rw [hnone, hmessage] at hjudge
    cases hjudge
    exact ⟨message, hmessage, rfl, hsettled.last⟩
  · rw [hsome] at hjudge
    cases hjudge
    have hne := refusal?_ne_buildFailed hsome
    have hready : Ready after := (Delivery.Settled.iff_of_ne hne).mp hsettled
    exact ⟨rfl, fun message => ⟨hne message, hkept.not_failed hready.opened message⟩⟩
  · intro hlegacy hfits
    cases htranslator : w.translator with
    | legacy parser => exact (Legacy.Parser.refusal?_eq_none_iff m.stream).mpr hfits
    | graph state =>
      rw [htranslator] at hlegacy
      cases hlegacy

theorem reported_error_fails_after_text :
    let m : Message := { stream := "Step 1/1 : FROM a", errorText := "boom" }
    let last := handle .quiet (.response m) { translator := .start .legacy }
    last.1 = .error (.buildFailed "boom") ∧
      last.2.delivery.history.getLast? = some (.buildFailed "boom") := by
  intro m last
  have hgoes : Handler.GoesOn .quiet := fun _ _ => rfl
  obtain ⟨hfails, _⟩ := reported_error_fails hgoes (.start .legacy false none) rfl (m := m) rfl
  obtain ⟨message, hmessage, hresult, htold⟩ := hfails (by decide +kernel)
  cases hmessage
  exact ⟨hresult, htold⟩

/-- A message of BuildKit's with the image's mark, without an image and with an error. -/
theorem reported_error_lost_without_image :
    let m : Message := { id := Message.imageIdMark, errorText := "boom" }
    let start : Working Translator := { translator := .start .buildKit }
    Reached .quiet start ∧ start.delivery.phase = .receiving ∧ m.failure? = some "boom" ∧
      (handle .quiet (.response m) start).1 = .error (.backendProtocol .imageIdWithoutPayload) ∧
      (handle .quiet (.response m) start).2.delivery.history = [] :=
  ⟨.start .buildKit false none, rfl, rfl, rfl, rfl⟩

end Translator

end BuildProgress
