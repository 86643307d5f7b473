import BuildProgress.Proofs.Legacy.Story
import BuildProgress.Proofs.Telling

/-!
# What the legacy builder's messages tell

What a message tells depends on the parser and on nothing else, as long as the guard takes it: what
its text tells, then its progress report, then the error that it reports. A step line whose number
does not fit tells nothing at all.
-/

namespace BuildProgress.Legacy.Parser

set_option autoImplicit false

open BuildProgress.Text

def closing (p : Parser) : List Event :=
  if p.step = 0 then [] else [.stepFinished p.step]

def progressEvent (p : Parser) (m : Message) : Event :=
  if p.transfers then
    .stepPullProgress p.step { message := m.status, detail := m.progress, id := m.id }
  else .stepDownloadProgress p.step (m.progress.getD {}).current (m.progress.getD {}).total

def progressEvents (p : Parser) (m : Message) : List Event :=
  if m.status ≠ "" || m.progress.isSome then [p.progressEvent m] else []

/-- How a message ends that the guard takes. -/
def verdict (m : Message) : Except BuildError Unit :=
  match m.failure? with
  | some message => .error (.buildFailed message)
  | none => .ok ()

/-- The text of a message, as a parser reads it: the events that it tells, and the parser after it. -/
inductive Reads (p : Parser) (text : String) : List Event → Parser → Prop where
  | line {line : StepLine} {step : Nat} (read : StepLine.read? text.toList = some line)
      (fits : readDigits? line.digits = some step) :
      Reads p text (p.closing ++ [.stepStarting step (String.ofList line.name)])
        (p.enter step line.name)
  | leftOut (unread : StepLine.read? text.toList = none) (out : p.leavesOut text.toList = true) :
      Reads p text [] (p.afterLeftOut text.toList)
  | output (unread : StepLine.read? text.toList = none) (kept : p.leavesOut text.toList = false)
      (some : text ≠ "") : Reads p text [.stepOutput p.step text] { p with shown := true }
  | empty (empty : text = "") : Reads p text [] p

@[simp] theorem afterLeftOut_step (p : Parser) (text : List Char) :
    (p.afterLeftOut text).step = p.step := by
  unfold afterLeftOut
  split <;> rfl

@[simp] theorem afterLeftOut_transfers (p : Parser) (text : List Char) :
    (p.afterLeftOut text).transfers = p.transfers := by
  unfold afterLeftOut
  split <;> rfl

theorem closeStep_tells (p : Parser) : Tells Prod.mk closeStep p p.closing (.ok (), p) := by
  unfold closeStep
  apply Tells.after_look
  rw [closing]
  by_cases h : p.step = 0
  · simp only [h, ne_eq, not_true_eq_false, if_false, if_true]
    exact .silent fun _ _ => rfl
  · simp only [h, ne_eq, not_false_eq_true, if_true, if_false]
    exact .report _ p

theorem openStep_tells (p : Parser) {line : StepLine} {step : Nat}
    (fits : readDigits? line.digits = some step) :
    Tells Prod.mk (openStep · line) p
      (p.closing ++ [.stepStarting step (String.ofList line.name)]) (.ok (), p.enter step line.name) := by
  unfold openStep
  simp only [fits]
  apply (closeStep_tells p).bind_ok
  apply Tells.after_change
  exact .report _ _

theorem onText_tells (p : Parser) {text : String} (htext : text ≠ "") :
    (∃ line, StepLine.read? text.toList = some line ∧ readDigits? line.digits = none ∧
      Tells Prod.mk (onText · text) p [] (.error (.stepNumberTooLarge (String.ofList line.digits)), p)) ∨
    ∃ events p', Reads p text events p' ∧ Tells Prod.mk (onText · text) p events (.ok (), p') := by
  unfold onText
  cases hread : StepLine.read? text.toList with
  | some line =>
    simp only
    cases hfits : readDigits? line.digits with
    | none =>
      refine Or.inl ⟨line, rfl, hfits, ?_⟩
      unfold openStep
      simp only [hfits]
      exact .silent fun _ _ => rfl
    | some step => exact Or.inr ⟨_, _, .line hread hfits, openStep_tells p hfits⟩
  | none =>
    right
    simp only
    cases hout : p.leavesOut text.toList with
    | true =>
      refine ⟨[], p.afterLeftOut text.toList, .leftOut hread hout, ?_⟩
      apply Tells.after_look
      simp only [id, hout, if_true]
      exact .silent fun _ _ => rfl
    | false =>
      refine ⟨[.stepOutput p.step text], { p with shown := true }, .output hread hout htext, ?_⟩
      apply Tells.after_look
      simp only [id, hout]
      apply Tells.after_change
      exact .report _ _

theorem onProgress_tells (p : Parser) (m : Message) :
    Tells Prod.mk (onProgress · m) p [p.progressEvent m] (.ok (), p) := by
  unfold onProgress
  apply Tells.after_look
  simp only [id, progressEvent]
  cases p.transfers with
  | true => exact .report _ p
  | false => exact .report _ p

theorem onEnd_tells (p : Parser) (m : Message) : ∃ imageId,
    Tells Prod.mk (fun handler => match m.failure? with
      | some message => reportFailure handler message
      | none => match m.payload.bind Message.imageId? with
        | some id => change ({ · with imageId := some id })
        | none => (pure () : Reporting Parser Unit)) p (failureEvents m)
      (verdict m, { p with imageId }) := by
  unfold failureEvents verdict
  cases m.failure? with
  | some message => exact ⟨p.imageId, .reportFailure message p⟩
  | none =>
    cases m.payload.bind Message.imageId? with
    | some id => exact ⟨some id, .silent fun _ _ => rfl⟩
    | none => exact ⟨p.imageId, .silent fun _ _ => rfl⟩

/-- Either the number of a step line does not fit, or a message tells what its text, its progress
report and its error tell. -/
theorem onMessage_tells (p : Parser) (m : Message) :
    (∃ line, StepLine.read? m.stream.toList = some line ∧ readDigits? line.digits = none ∧
      Tells Prod.mk (onMessage · m) p []
        (.error (.stepNumberTooLarge (String.ofList line.digits)), p)) ∨
    ∃ text p₁ imageId, Reads p m.stream text p₁ ∧
      Tells Prod.mk (onMessage · m) p (text ++ (p₁.progressEvents m ++ failureEvents m))
        (verdict m, { p₁ with imageId }) := by
  have hprogress (p₁ : Parser) : (m.status ≠ "" || m.progress.isSome) = true →
      Tells Prod.mk (onProgress · m) p₁ (p₁.progressEvents m) (.ok (), p₁) := by
    intro h
    rw [progressEvents, if_pos h]
    exact onProgress_tells p₁ m
  have hquiet (p₁ : Parser) : ¬ (m.status ≠ "" || m.progress.isSome) = true →
      p₁.progressEvents m = [] ∧ p₁ = p₁ :=
    fun h => ⟨if_neg h, rfl⟩
  unfold onMessage
  dsimp only
  by_cases hstream : m.stream = ""
  · right
    obtain ⟨imageId, hend⟩ := onEnd_tells p m
    refine ⟨[], p, imageId, .empty hstream, ?_⟩
    simp only [hstream, ne_eq, not_true_eq_false, if_false, List.nil_append]
    exact .whenever (hprogress p) (hquiet p) hend
  · simp only [hstream, ne_eq, not_false_eq_true, if_true]
    rcases onText_tells p hstream with ⟨line, hread, hlarge, htext⟩ | ⟨text, p₁, hread, htext⟩
    · exact Or.inl ⟨line, hread, hlarge, htext.bind_error⟩
    · right
      obtain ⟨imageId, hend⟩ := onEnd_tells p₁ m
      refine ⟨text, p₁, imageId, hread, htext.bind_ok ?_⟩
      exact .whenever (hprogress p₁) (hquiet p₁) hend

theorem onUpload_tells (p : Parser) (bytes : Int) :
    Tells Prod.mk (onUpload · bytes) p [.contextUploadProgress p.step bytes] (.ok (), p) := by
  unfold onUpload
  apply Tells.after_look
  exact .report _ p

theorem finish_tells (p : Parser) : Tells Prod.mk finish p
    (if p.imageId.isSome then p.closing else []) (.ok p.imageId, { p with imageId := none }) := by
  unfold finish
  apply Tells.after_look
  dsimp only [id]
  have hforget : Tells Prod.mk (fun _ : Handler => (do
      change ({ · with imageId := none })
      pure p.imageId : Reporting Parser (Option String))) p [] (.ok p.imageId, { p with imageId := none }) :=
    .silent fun _ _ => rfl
  rw [← List.append_nil (if p.imageId.isSome then p.closing else [])]
  apply Tells.whenever _ _ hforget
  · intro h
    rw [if_pos h]
    exact closeStep_tells p
  · exact fun h => ⟨if_neg h, rfl⟩

end BuildProgress.Legacy.Parser
