import BuildProgress.Proofs.Legacy.Telling

/-!
# Runs of the legacy parser

A parser is given inputs one after the other, whatever becomes of each, and then it finishes. As long
as delivery goes on, what the parser remembers of the steps is what the history tells of them.
-/

namespace BuildProgress.Legacy.Parser

set_option autoImplicit false

open BuildProgress.Text

variable {handler : Handler} {p p' : Parser} {told events : List Event} {input : Input}

/-- The parser remembers what was told. -/
structure Recalls (p : Parser) (told : List Event) : Prop where
  step : p.step = currentStep told
  transfers : p.transfers = true ↔ Fetches told
  opened : openStep? told = if p.step = 0 then none else some p.step

namespace Recalls

theorem initial : Recalls {} [] where
  step := rfl
  transfers := by simp [Fetches, latest?]
  opened := rfl

theorem closing_eq (h : Recalls p told) : p.closing = Legacy.closing told := by
  unfold Parser.closing Legacy.closing
  rw [h.opened]
  split <;> rfl

theorem steady (h : Recalls p told) (hstep : p'.step = p.step) (htransfers : p'.transfers = p.transfers)
    (hevents : ∀ event ∈ events, Steady event) : Recalls p' (told ++ events) := by
  obtain ⟨hlatest, hopen⟩ := steady_append hevents
  refine ⟨?_, ?_, ?_⟩
  · rw [hstep, h.step, currentStep, currentStep, hlatest]
  · rw [htransfers, h.transfers, Fetches, Fetches, hlatest]
  · rw [hopen, hstep, h.opened]

theorem enter (p : Parser) (step : Nat) (name : List Char) (hclosed : openStep? told = none) :
    Recalls (p.enter step name) (told ++ [.stepStarting step (String.ofList name)]) := by
  have hlatest : latest? (told ++ [.stepStarting step (String.ofList name)]) =
      some (step, String.ofList name) := by
    rw [latest?_concat]
    rfl
  refine ⟨?_, ?_, ?_⟩
  · rw [currentStep, hlatest]
    rfl
  · unfold Fetches
    rw [hlatest]
    change isTransfer name = true ↔ _
    rw [isTransfer_iff]
    constructor
    · exact fun hname => ⟨_, _, rfl, hname⟩
    · rintro ⟨_, _, heq, hname⟩
      obtain ⟨_, rfl⟩ := Prod.mk.inj (Option.some.inj heq)
      exact hname
  · change _ = if step = 0 then none else some step
    by_cases hzero : step = 0
    · have hturn : turn? (.stepStarting step (String.ofList name)) = none := if_pos hzero
      rw [if_pos hzero, openStep?_concat_of_none hturn, hclosed]
    · rw [if_neg hzero, openStep?_concat_start _ hzero]

theorem text (h : Recalls p told) {text : String} (hreads : Reads p text events p') :
    TextAdds told text events ∧ Recalls p' (told ++ events) := by
  cases hreads with
  | @line line step read fits =>
    rw [h.closing_eq]
    refine ⟨.line ⟨line, read, fits, rfl⟩, ?_⟩
    rw [← List.append_assoc]
    exact enter p step line.name (openStep?_closing told)
  | leftOut unread _ =>
    refine ⟨.leftOut unread, h.steady (afterLeftOut_step _ _) (afterLeftOut_transfers _ _) ?_⟩
    exact fun _ hin => nomatch hin
  | output unread _ _ =>
    have hadds : TextAdds told text [.stepOutput p.step text] := by
      rw [h.step]
      exact .output unread
    refine ⟨hadds, h.steady rfl rfl fun event hin => ?_⟩
    obtain rfl := List.mem_singleton.mp hin
    exact ⟨nofun, nofun⟩
  | empty hempty =>
    refine ⟨.leftOut (by rw [hempty]; rfl), h.steady rfl rfl ?_⟩
    exact fun _ hin => nomatch hin

theorem report (h : Recalls p told) (m : Message) : ReportAdds told m (p.progressEvents m) := by
  unfold progressEvents progressEvent
  by_cases hreports : (m.status ≠ "" || m.progress.isSome) = true
  · have hreports' : m.status ≠ "" ∨ m.progress.isSome = true := by simpa using hreports
    rw [if_pos hreports, h.step]
    by_cases htransfers : p.transfers = true
    · rw [if_pos htransfers]
      exact .pull hreports' (h.transfers.mp htransfers)
    · rw [if_neg htransfers]
      exact .download hreports' (mt h.transfers.mpr htransfers)
  · rw [if_neg hreports]
    have hnone : m.status = "" ∧ m.progress = none := by simpa using hreports
    exact .none hnone.1 hnone.2

end Recalls

/-- The guard has refused no finish of a step for want of its start. -/
def Unrefused {α : Type} (outcome : Except BuildError α) : Prop :=
  ∀ step, outcome ≠ .error (.contractViolation (.finishedBeforeStart step))

theorem unrefused_ok {α : Type} (a : α) : Unrefused (.ok a) :=
  nofun

theorem unrefused_callbackFailed {α : Type} : Unrefused (.error .callbackFailed : Except BuildError α) :=
  nofun

theorem unrefused_verdict (m : Message) : Unrefused (verdict m) := by
  unfold verdict
  cases m.failure? <;> exact nofun

def take (handler : Handler) : Input → Reporting Parser Unit
  | .message m => onMessage handler m
  | .upload bytes => onUpload handler bytes

/-- The parser and the guard after a new parser was given some inputs, whatever it answered. -/
def after (handler : Handler) (cancelled : Bool) (inputs : List Input) : Parser × Delivery :=
  inputs.foldl (fun s input => (take handler input s).2) ({}, { cancelled })

theorem take_tells (p : Parser) (input : Input) : ∃ events ending,
    Tells Prod.mk (take · input) p events ending ∧ Unrefused ending.1 ∧
      ∀ told, Recalls p told → Account told input events ∧ Recalls ending.2 (told ++ events) := by
  cases input with
  | message m =>
    rcases onMessage_tells p m with
      ⟨line, hread, hlarge, htells⟩ | ⟨text, p₁, imageId, hreads, htells⟩
    · refine ⟨_, _, htells, nofun, fun told h => ⟨.oversized ⟨line, hread, hlarge⟩, ?_⟩⟩
      rwa [List.append_nil]
    · refine ⟨_, _, htells, unrefused_verdict m, fun told h => ?_⟩
      obtain ⟨hsaid, hrecalls⟩ := h.text hreads
      have hreported := hrecalls.report m
      refine ⟨.message hsaid hreported, ?_⟩
      rw [← List.append_assoc]
      refine hrecalls.steady rfl rfl fun event hin => ?_
      rcases List.mem_append.mp hin with hin | hin
      · exact (hreported.steady event hin).1
      · exact failureEvents_steady m event hin
  | upload bytes =>
    refine ⟨_, _, onUpload_tells p bytes, unrefused_ok (), fun told h => ⟨?_, h.steady rfl rfl ?_⟩⟩
    · rw [h.step]
      exact .upload bytes
    · intro event hin
      obtain rfl := List.mem_singleton.mp hin
      exact ⟨nofun, nofun⟩

theorem take_ended (handler : Handler) {s : Parser × Delivery} (hended : s.2.phase ≠ .receiving)
    (input : Input) :
    (take handler input s).2.2 = s.2 ∧ Unrefused (take handler input s).1 := by
  obtain ⟨all, ending, htells, hending, _⟩ := take_tells s.1 input
  obtain ⟨hsame, houtcome⟩ := htells.withheld hended
  refine ⟨hsame, ?_⟩
  rcases houtcome with herror | houtcome
  · rw [herror]
    exact unrefused_callbackFailed
  · rw [houtcome]
    exact hending

/-- What holds at every moment of a run. -/
structure Sound (handler : Handler) (s : Parser × Delivery) : Prop where
  kept : Delivery.Kept handler s.2
  story : Story s.2.history
  recalls : s.2.phase = .receiving → Recalls s.1 s.2.history

namespace Sound

theorem initial (handler : Handler) (cancelled : Bool) : Sound handler ({}, { cancelled }) where
  kept := .initial handler cancelled
  story := continues_nil
  recalls := fun _ => .initial

variable {s : Parser × Delivery}

theorem take_open (h : Sound handler s) (hopen : s.2.phase = .receiving) (input : Input) :
    Sound handler (take handler input s).2 ∧ ∃ all new, Account s.2.history input all ∧
      new <+: all ∧ (take handler input s).2.2.history = s.2.history ++ new ∧
      (new = all ∨ new ≠ [] ∧ (take handler input s).1 = .error .callbackFailed) ∧
      Unrefused (take handler input s).1 := by
  obtain ⟨all, ending, htells, hending, hrecalls⟩ := take_tells s.1 input
  obtain ⟨haccount, hafter⟩ := hrecalls _ (h.recalls hopen)
  obtain ⟨new, hin, hhistory, hend⟩ := htells.delivered h.kept hopen haccount.fitting
  have hstory : Story (take handler input s).2.2.history := by
    rw [hhistory]
    exact h.story.append (haccount.continues.of_prefix hin)
  refine ⟨⟨htells.kept h.kept, hstory, fun hopen' => ?_⟩, all, new, haccount, hin, hhistory, ?_, ?_⟩
  · rcases hend with ⟨rfl, _, hstate⟩ | ⟨_, _, haborted⟩
    · rw [hhistory, hstate]
      exact hafter
    · rw [haborted] at hopen'
      cases hopen'
  · rcases hend with ⟨hall, _⟩ | ⟨hsome, herror, _⟩
    · exact Or.inl hall
    · exact Or.inr ⟨hsome, herror⟩
  · rcases hend with ⟨_, houtcome, _⟩ | ⟨_, herror, _⟩
    · rw [houtcome]
      exact hending
    · rw [herror]
      exact unrefused_callbackFailed

theorem take (h : Sound handler s) (input : Input) : Sound handler (take handler input s).2 := by
  by_cases hopen : s.2.phase = .receiving
  · exact (h.take_open hopen input).1
  · obtain ⟨hsame, _⟩ := take_ended handler hopen input
    refine ⟨?_, ?_, fun hopen' => ?_⟩
    · rw [hsame]
      exact h.kept
    · rw [hsame]
      exact h.story
    · rw [hsame] at hopen'
      exact absurd hopen' hopen

theorem after (handler : Handler) (cancelled : Bool) (inputs : List Input) :
    Sound handler (after handler cancelled inputs) := by
  unfold Parser.after
  generalize hstart : (({}, { cancelled }) : Parser × Delivery) = s
  have h : Sound handler s := hstart ▸ initial handler cancelled
  clear hstart
  induction inputs generalizing s with
  | nil => exact h
  | cons input inputs ih => exact ih _ (h.take input)

end Sound

def lastEvents (p : Parser) (told : List Event) : List Event :=
  if p.imageId.isSome then Legacy.closing told else []

theorem lastEvents_continues (p : Parser) (told : List Event) : Continues told (p.lastEvents told) := by
  unfold lastEvents
  split
  · exact closing_continues told
  · exact continues_nil

theorem lastEvents_fitting (p : Parser) (told : List Event) :
    Delivery.Fitting told (p.lastEvents told) := by
  unfold lastEvents
  split
  · exact closing_fitting told
  · exact continues_nil.fitting fun earlier event hin => by simp at hin

theorem mem_lastEvents {step : Nat} : .stepFinished step ∈ p.lastEvents told ↔
    openStep? told = some step ∧ p.imageId.isSome = true := by
  unfold lastEvents
  by_cases h : p.imageId.isSome = true
  · rw [if_pos h, mem_closing, and_iff_left h]
  · simp [h]

theorem finish_open {s : Parser × Delivery} (h : Sound handler s) (hopen : s.2.phase = .receiving) :
    (finish handler s).2.2.history = s.2.history ++ s.1.lastEvents s.2.history ∧
      Unrefused (finish handler s).1 := by
  have htells := finish_tells s.1
  rw [(h.recalls hopen).closing_eq] at htells
  obtain ⟨new, hin, hhistory, hend⟩ :=
    htells.delivered h.kept hopen (lastEvents_fitting s.1 s.2.history)
  rcases hend with ⟨rfl, houtcome, _⟩ | ⟨hsome, herror, _⟩
  · exact ⟨hhistory, houtcome ▸ unrefused_ok s.1.imageId⟩
  · refine ⟨?_, herror ▸ unrefused_callbackFailed⟩
    -- There is one event at most, so that the handler was given it when it stopped.
    have hall : new = s.1.lastEvents s.2.history := by
      unfold lastEvents
      split at hin
      · rw [if_pos ‹_›]
        exact closing_eq_of_prefix hin hsome
      · exact absurd (List.prefix_nil.mp hin) hsome
    rw [← hall]
    exact hhistory

theorem finish_ended (handler : Handler) {s : Parser × Delivery} (hended : s.2.phase ≠ .receiving) :
    (finish handler s).2.2 = s.2 ∧ Unrefused (finish handler s).1 := by
  obtain ⟨hsame, houtcome⟩ := (finish_tells s.1).withheld hended
  refine ⟨hsame, ?_⟩
  rcases houtcome with herror | hok
  · exact herror ▸ unrefused_callbackFailed
  · exact hok ▸ unrefused_ok s.1.imageId

/-- A new parser is given some inputs, whatever it answers, and then it finishes. Steps start and
finish one after the other, and every other event belongs to the step that started last. While
neither the handler nor a failure of the build has ended delivery, the open step finishes with the
next step line or when an image was named, and not otherwise; a progress report tells of a pull if
that step fetches an image, and of a download if not. No finish is refused. -/
theorem one_step_at_a_time (handler : Handler) (cancelled : Bool) (inputs : List Input) :
    let now := after handler cancelled inputs
    let told := now.2.history
    let last := finish handler now
    OneAtATime last.2.2.history ∧ .stepFinished 0 ∉ last.2.2.history ∧ Story last.2.2.history ∧
    Unrefused last.1 ∧ (∀ input, Unrefused (take handler input now).1) ∧
    (¬ handler.Stops told → (∀ message, .buildFailed message ∉ told) →
      (∃ new, last.2.2.history = told ++ new ∧ ∀ step, .stepFinished step ∈ new ↔
        openStep? told = some step ∧ now.1.imageId.isSome = true) ∧
      ∀ input, ∃ all new, Account told input all ∧ new <+: all ∧
        (take handler input now).2.2.history = told ++ new ∧
        (new = all ∨ new ≠ [] ∧ (take handler input now).1 = .error .callbackFailed) ∧
        ∀ step, .stepFinished step ∈ new ↔
          openStep? told = some step ∧ ∃ n name, StartsStep input.text n name) := by
  intro now told last
  have hsound : Sound handler now := .after handler cancelled inputs
  by_cases hopen : now.2.phase = .receiving
  · obtain ⟨hlast, hallowed⟩ := finish_open hsound hopen
    have hstory : Story last.2.2.history := by
      rw [hlast]
      exact hsound.story.append (lastEvents_continues now.1 told)
    refine ⟨hstory.oneAtATime, hstory.not_mem_finish_zero, hstory, hallowed, ?_, ?_⟩
    · intro input
      obtain ⟨_, _, _, _, _, _, _, haccepted⟩ := hsound.take_open hopen input
      exact haccepted
    · intro _ _
      refine ⟨⟨_, hlast, fun step => mem_lastEvents⟩, fun input => ?_⟩
      obtain ⟨_, all, new, haccount, hin, hhistory, hend, _⟩ := hsound.take_open hopen input
      exact ⟨all, new, haccount, hin, hhistory, hend,
        fun step => haccount.finishes_iff_of_prefix hin (hend.imp_right And.left)⟩
  · -- Delivery has ended, so that the story stays as it is.
    obtain ⟨hlast, hallowed⟩ := finish_ended handler hopen
    have hstory : Story last.2.2.history := by
      rw [hlast]
      exact hsound.story
    refine ⟨hstory.oneAtATime, hstory.not_mem_finish_zero, hstory, hallowed, ?_, ?_⟩
    · exact fun input => (take_ended handler hopen input).2
    · intro hnot hfailure
      exact absurd (hsound.kept.told.receiving_iff.mpr ⟨hnot, hfailure⟩) hopen

end BuildProgress.Legacy.Parser
