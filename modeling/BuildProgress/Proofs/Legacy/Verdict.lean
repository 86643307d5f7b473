import BuildProgress.Proofs.Ends
import BuildProgress.Proofs.Legacy.Story

/-!
# The verdict on a message of the legacy builder

What becomes of a message can be told beforehand: it is refused only if it is a step line whose
number does not fit, and otherwise it fails if it reports an error. The parser comes to this verdict
as long as delivery goes on and the handler does not stop.
-/

namespace BuildProgress.Legacy.Parser

set_option autoImplicit false

open BuildProgress.Text

/-- Why a text is refused, if it is. -/
def refusal? (text : String) : Option BuildError :=
  match StepLine.read? text.toList with
  | some line =>
    match readDigits? line.digits with
    | some _ => none
    | none => some (.stepNumberTooLarge (String.ofList line.digits))
  | none => none

theorem refusal?_eq_none_iff (text : String) : refusal? text = none ↔ ¬ Oversized text := by
  unfold refusal? Oversized
  cases StepLine.read? text.toList with
  | none => simp
  | some line => cases hfits : readDigits? line.digits <;> simp [hfits]

theorem refusal?_ne_buildFailed {text : String} {e : BuildError} (h : refusal? text = some e)
    (message : String) : e ≠ .buildFailed message := by
  rintro rfl
  unfold refusal? at h
  split at h
  · split at h <;> cases h
  · cases h

/-- Delivery goes on, and the current step was started. -/
structure Ready (s : Parser × Delivery) : Prop where
  opened : s.2.phase = .receiving
  started : s.1.step ≠ 0 → s.1.step ∈ s.2.started

/-- The parser after a text that it has not refused. -/
structure Accepts (s : Parser × Delivery) (text : String) (u : Parser × Delivery) : Prop where
  ready : Ready u
  image : u.1.imageId = s.1.imageId
  fits : refusal? text = none

namespace Ready

variable {handler : Handler} {s : Parser × Delivery} {event : Event}

theorem report (h : Ready s) (hgoes : handler.GoesOn) (hdelivers : s.2.Delivers event)
    (hfailure : event.isFailure = false) : Action.Ends (report handler event) s
      (fun _ u => Ready u ∧ u.1 = s.1) (fun _ _ => False) := by
  apply (report_ends hgoes hdelivers).safely
  rintro _ u ⟨hsame, hpasses⟩
  refine ⟨⟨by rw [hpasses.phase, hfailure]; rfl, ?_⟩, hsame⟩
  rw [hsame, hpasses.started]
  exact fun hstep => Delivery.mem_started_noteStart (h.started hstep)

theorem closeStep (h : Ready s) (hgoes : handler.GoesOn) :
    Action.Ends (closeStep handler) s (fun _ u => Ready u ∧ u.1 = s.1) (fun _ _ => False) := by
  unfold Parser.closeStep
  apply Action.Ends.after_look
  split
  · rename_i hstep
    have hdelivers : s.2.Delivers (.stepFinished s.1.step) := by
      refine ⟨h.opened, ?_⟩
      rintro ⟨step, heq, hnot⟩
      cases heq
      exact hnot (h.started hstep)
    exact h.report hgoes hdelivers rfl
  · exact .of_ok rfl ⟨h, rfl⟩

theorem openStep (h : Ready s) (hgoes : handler.GoesOn) {line : StepLine} {step : Nat}
    (fits : readDigits? line.digits = some step) : Action.Ends (openStep handler line) s
      (fun _ u => Ready u ∧ u.1.imageId = s.1.imageId) (fun _ _ => False) := by
  unfold Parser.openStep
  simp only [fits]
  apply Action.Ends.bind
  apply (h.closeStep hgoes).safely
  rintro _ u ⟨hready, hsame⟩
  apply Action.Ends.after_change
  have hdelivers : u.2.Delivers (.stepStarting step (String.ofList line.name)) :=
    Delivery.delivers_of_ne_finish hready.opened nofun
  have hreport := report_ends (s := (u.1.enter step line.name, u.2)) hgoes hdelivers
  apply hreport.safely
  rintro _ v ⟨hentered, hpasses⟩
  refine ⟨⟨hpasses.phase, fun _ => ?_⟩, ?_⟩
  · rw [hentered, hpasses.started]
    exact List.mem_insert_self
  · rw [hentered, ← hsame]
    rfl

theorem onText (h : Ready s) (hgoes : handler.GoesOn) (text : String) :
    Action.Ends (onText handler text) s (fun _ => Accepts s text)
      (fun e u => Ready u ∧ refusal? text = some e) := by
  unfold Parser.onText
  cases hread : StepLine.read? text.toList with
  | some line =>
    dsimp only
    cases hfits : readDigits? line.digits with
    | none =>
      unfold Parser.openStep
      simp only [hfits]
      exact .of_error rfl ⟨h, by simp [refusal?, hread, hfits]⟩
    | some step =>
      have haccepted : refusal? text = none := by simp [refusal?, hread, hfits]
      exact (h.openStep hgoes hfits).safely fun _ u hu => ⟨hu.1, hu.2, haccepted⟩
  | none =>
    have haccepted : refusal? text = none := by simp [refusal?, hread]
    apply Action.Ends.after_look
    dsimp only [id]
    split
    · refine .of_ok rfl ⟨⟨h.opened, ?_⟩, ?_, haccepted⟩
      · unfold afterLeftOut
        split <;> exact h.started
      · unfold afterLeftOut
        split <;> rfl
    · apply Action.Ends.after_change
      have hshown : Ready ({ s.1 with shown := true }, s.2) := ⟨h.opened, h.started⟩
      have hdelivers : s.2.Delivers (.stepOutput s.1.step text) :=
        Delivery.delivers_of_ne_finish h.opened nofun
      apply (hshown.report hgoes hdelivers rfl).safely
      rintro _ u ⟨hready, hsame⟩
      exact ⟨hready, by rw [hsame], haccepted⟩

theorem onProgress (h : Ready s) (hgoes : handler.GoesOn) (m : Message) :
    Action.Ends (onProgress handler m) s (fun _ u => Ready u ∧ u.1 = s.1) (fun _ _ => False) := by
  unfold Parser.onProgress
  apply Action.Ends.after_look
  dsimp only [id]
  split
  · exact h.report hgoes (Delivery.delivers_of_ne_finish h.opened nofun) rfl
  · exact h.report hgoes (Delivery.delivers_of_ne_finish h.opened nofun) rfl

theorem onUpload (h : Ready s) (hgoes : handler.GoesOn) (bytes : Int) :
    Action.Ends (onUpload handler bytes) s (fun _ u => Ready u ∧ u.1 = s.1) (fun _ _ => False) := by
  unfold Parser.onUpload
  apply Action.Ends.after_look
  exact h.report hgoes (Delivery.delivers_of_ne_finish h.opened nofun) rfl

theorem onEnd (h : Ready s) (hgoes : handler.GoesOn) (m : Message) :
    Action.Ends (match m.failure? with
      | some message => reportFailure handler message
      | none => match m.payload.bind Message.imageId? with
        | some id => change ({ · with imageId := some id })
        | none => (pure () : Reporting Parser Unit)) s
      (fun _ u => Ready u ∧ m.failure? = none ∧
        u.1.imageId = (m.payload.bind Message.imageId?).or s.1.imageId)
      (fun e u => ∃ message, m.failure? = some message ∧ e = .buildFailed message ∧
        u.2.ToldFailure message) := by
  cases m.failure? with
  | some message =>
    apply (reportFailure_ends hgoes h.opened message).mono
    · exact fun _ _ hfalse => hfalse.elim
    · rintro e u ⟨rfl, -, htold⟩
      exact ⟨message, rfl, rfl, htold⟩
  | none =>
    cases m.payload.bind Message.imageId? with
    | some id => exact .of_ok rfl ⟨⟨h.opened, h.started⟩, rfl, rfl⟩
    | none => exact .of_ok rfl ⟨h, rfl, rfl⟩

/-- The parser comes to the verdict on the message. An image is remembered only if all is well. -/
theorem onMessage (h : Ready s) (hgoes : handler.GoesOn) (m : Message) :
    Action.Ends (onMessage handler m) s
      (fun _ u => Ready u ∧ judge (refusal? m.stream) m.failure? = .ok () ∧
        u.1.imageId = (m.payload.bind Message.imageId?).or s.1.imageId)
      (fun e u => Delivery.Settled (Ready u) u.2 e ∧
        judge (refusal? m.stream) m.failure? = .error e) := by
  unfold Parser.onMessage
  dsimp only
  apply Action.Ends.whenever (P := Accepts s m.stream)
  · intro _
    apply (h.onText hgoes m.stream).mono
    · exact fun _ _ haccepts => haccepts
    · rintro e u ⟨hready, hrefusal⟩
      exact ⟨.of_ne hready (refusal?_ne_buildFailed hrefusal), by rw [hrefusal, judge]⟩
  · intro hempty
    rw [ne_eq, not_not] at hempty
    exact ⟨h, rfl, by rw [hempty]; rfl⟩
  · intro u hu
    apply Action.Ends.whenever (P := Accepts s m.stream) _ (fun _ => hu)
    · intro v hv
      apply (hv.ready.onEnd hgoes m).mono
      · rintro _ w ⟨hready, hnone, himage⟩
        exact ⟨hready, by rw [hv.fits, hnone, judge], by rw [himage, hv.image]⟩
      · rintro e w ⟨message, hsome, rfl, htold⟩
        exact ⟨htold, by rw [hv.fits, hsome, judge]⟩
    · intro _
      apply (hu.ready.onProgress hgoes m).safely
      rintro _ v ⟨hready, hsame⟩
      exact ⟨hready, hsame ▸ hu.image, hu.fits⟩

theorem finish (h : Ready s) (hgoes : handler.GoesOn) :
    Action.Ends (finish handler) s (fun image u => Ready u ∧ image = s.1.imageId)
      (fun _ _ => False) := by
  unfold Parser.finish
  apply Action.Ends.after_look
  dsimp only [id]
  split
  · apply Action.Ends.bind
    apply (h.closeStep hgoes).safely
    rintro _ u ⟨hready, -⟩
    apply Action.Ends.after_change
    exact .of_ok rfl ⟨⟨hready.opened, hready.started⟩, rfl⟩
  · apply Action.Ends.after_change
    exact .of_ok rfl ⟨⟨h.opened, h.started⟩, rfl⟩

end Ready

end BuildProgress.Legacy.Parser
