import BuildProgress.Legacy.Parser
import BuildProgress.Proofs.Guard
import BuildProgress.Proofs.Lifecycle

/-!
# One legacy step after the other

In what the legacy builder's messages tell, at most one step is open at any time. `Fits` says of one
event that it may follow the events before it, in terms of these events alone; a `Story` is a
sequence in which every event fits. `Account` says in the same terms what an input adds to a story.
-/

namespace BuildProgress.Legacy

set_option autoImplicit false

open BuildProgress.Text

/-- The name begins with `FROM` and a blank, in letters of either case. -/
def NamesTransfer (name : String) : Prop :=
  ∃ f r o m rest, name.toList = f :: r :: o :: m :: ' ' :: rest ∧ (f = 'F' ∨ f = 'f') ∧
    (r = 'R' ∨ r = 'r') ∧ (o = 'O' ∨ o = 'o') ∧ (m = 'M' ∨ m = 'm')

def started? : Event → Option (Nat × String)
  | .stepStarting step name => some (step, name)
  | _ => none

/-- The step that was started last, and its name. -/
def latest? (told : List Event) : Option (Nat × String) :=
  (told.filterMap started?).getLast?

def currentStep (told : List Event) : Nat :=
  ((latest? told).map Prod.fst).getD 0

def Fetches (told : List Event) : Prop :=
  ∃ step name, latest? told = some (step, name) ∧ NamesTransfer name

/-- The start or finish that an event tells, step 0 left out. -/
def turn? : Event → Option (Mark × Nat)
  | .stepStarting step _ => if step = 0 then none else some (.start, step)
  | .stepFinished step => if step = 0 then none else some (.finish, step)
  | _ => none

def lifeline (told : List Event) : List (Mark × Nat) :=
  told.filterMap turn?

def openStep? (told : List Event) : Option Nat :=
  match (lifeline told).getLast? with
  | some (.start, step) => some step
  | _ => none

/-- A step starts and finishes, and then the next one; the last one may be open. -/
def OneAtATime (told : List Event) : Prop :=
  ∃ steps : List Nat, lifeline told = steps.flatMap (fun step => [(.start, step), (.finish, step)]) ++
    (openStep? told).toList.map fun step => (.start, step)

/-- The event may come after those that were told before. -/
def Fits (told : List Event) : Event → Prop
  | .stepStarting _ _ => openStep? told = none
  | .stepFinished step => openStep? told = some step
  | .contextUploadProgress step _ => step = currentStep told
  | .stepOutput step _ => step = currentStep told
  | .stepPullProgress step _ => step = currentStep told ∧ Fetches told
  | .stepDownloadProgress step _ _ => step = currentStep told ∧ ¬ Fetches told
  | .buildFailed _ => True

def Continues (told events : List Event) : Prop :=
  ∀ earlier event, earlier ++ [event] <+: events → Fits (told ++ earlier) event

def Story (told : List Event) : Prop :=
  Continues [] told

variable {told events more : List Event} {event : Event} {step : Nat} {name : String}

section Names

theorem upper_of_not_ascii {c : Char} (h : 128 ≤ c.toNat) : upper c = c := by
  have hnot : ¬ ('a' ≤ c ∧ c ≤ 'z') := by
    rintro ⟨_, hle⟩
    have hz : c.toNat ≤ 122 := hle
    omega
  exact if_neg hnot

/-- It is enough to look at the characters of ASCII. -/
theorem upper_eq_iff {big small : Char}
    (h : ∀ n < 128, upper (Char.ofNat n) = big ↔ Char.ofNat n = big ∨ Char.ofNat n = small)
    (hbig : big.toNat < 128) (hsmall : small.toNat < 128) (c : Char) :
    upper c = big ↔ c = big ∨ c = small := by
  by_cases hc : c.toNat < 128
  · have hn := h c.toNat hc
    rwa [Char.ofNat_toNat] at hn
  · rw [upper_of_not_ascii (Nat.le_of_not_lt hc)]
    constructor
    · exact Or.inl
    · rintro (rfl | rfl)
      · exact absurd hbig hc
      · exact absurd hsmall hc

theorem isTransfer_iff (name : List Char) :
    isTransfer name = true ↔ NamesTransfer (String.ofList name) := by
  have hF : ∀ c, upper c = 'F' ↔ c = 'F' ∨ c = 'f' :=
    upper_eq_iff (by decide +kernel) (by decide) (by decide)
  have hR : ∀ c, upper c = 'R' ↔ c = 'R' ∨ c = 'r' :=
    upper_eq_iff (by decide +kernel) (by decide) (by decide)
  have hO : ∀ c, upper c = 'O' ↔ c = 'O' ∨ c = 'o' :=
    upper_eq_iff (by decide +kernel) (by decide) (by decide)
  have hM : ∀ c, upper c = 'M' ↔ c = 'M' ∨ c = 'm' :=
    upper_eq_iff (by decide +kernel) (by decide) (by decide)
  have hblank : ∀ c, upper c = ' ' ↔ c = ' ' ∨ c = ' ' :=
    upper_eq_iff (by decide +kernel) (by decide) (by decide)
  have hmark : "FROM ".toList = ['F', 'R', 'O', 'M', ' '] := by decide
  unfold isTransfer NamesTransfer
  rw [List.isPrefixOf_iff_prefix, hmark, String.toList_ofList]
  constructor
  · rintro ⟨_, heq⟩
    obtain ⟨f, _, rfl, hf, heq⟩ := List.map_eq_cons_iff.mp heq.symm
    obtain ⟨r, _, rfl, hr, heq⟩ := List.map_eq_cons_iff.mp heq
    obtain ⟨o, _, rfl, ho, heq⟩ := List.map_eq_cons_iff.mp heq
    obtain ⟨m, _, rfl, hm, heq⟩ := List.map_eq_cons_iff.mp heq
    obtain ⟨blank, rest, rfl, hb, _⟩ := List.map_eq_cons_iff.mp heq
    obtain rfl : blank = ' ' := by simpa using (hblank blank).mp hb
    exact ⟨f, r, o, m, rest, rfl, (hF f).mp hf, (hR r).mp hr, (hO o).mp ho, (hM m).mp hm⟩
  · rintro ⟨f, r, o, m, rest, rfl, hf, hr, ho, hm⟩
    refine ⟨rest.map upper, ?_⟩
    simp only [List.map_cons, (hF f).mpr hf, (hR r).mpr hr, (hO o).mpr ho, (hM m).mpr hm,
      (hblank ' ').mpr (Or.inl rfl), List.cons_append, List.nil_append]

end Names

theorem latest?_concat : latest? (told ++ [event]) = (started? event).or (latest? told) := by
  unfold latest?
  cases h : started? event with
  | none => simp [h]
  | some start => simp [h]

theorem lifeline_concat : lifeline (told ++ [event]) = lifeline told ++ (turn? event).toList := by
  unfold lifeline
  cases h : turn? event with
  | none => simp [h]
  | some turn => simp [h]

theorem openStep?_concat_of_none (h : turn? event = none) :
    openStep? (told ++ [event]) = openStep? told := by
  unfold openStep?
  rw [lifeline_concat, h]
  simp

theorem openStep?_concat_start (name : String) (h : step ≠ 0) :
    openStep? (told ++ [.stepStarting step name]) = some step := by
  unfold openStep?
  rw [lifeline_concat]
  simp [turn?, h]

theorem openStep?_concat_finish (h : step ≠ 0) :
    openStep? (told ++ [.stepFinished step]) = none := by
  unfold openStep?
  rw [lifeline_concat]
  simp [turn?, h]

/-- An event that neither starts nor finishes a step. -/
def Steady (event : Event) : Prop :=
  event.kind ≠ .stepStarting ∧ event.kind ≠ .stepFinished

theorem Steady.tells_no_turn (h : Steady event) : started? event = none ∧ turn? event = none := by
  cases event with
  | stepStarting _ _ => exact absurd rfl h.1
  | stepFinished _ => exact absurd rfl h.2
  | _ => exact ⟨rfl, rfl⟩

theorem steady_append (h : ∀ event ∈ events, Steady event) :
    latest? (told ++ events) = latest? told ∧ openStep? (told ++ events) = openStep? told := by
  induction events using List.reverseRecOn with
  | nil => simp
  | append_singleton events event ih =>
    obtain ⟨hlatest, hopen⟩ := ih fun e he => h e (List.mem_append_left _ he)
    obtain ⟨hstarted, hturn⟩ := (h event (by simp)).tells_no_turn
    rw [← List.append_assoc, latest?_concat, hstarted, Option.none_or,
      openStep?_concat_of_none hturn]
    exact ⟨hlatest, hopen⟩

theorem not_mem_of_steady (h : ∀ event ∈ events, Steady event) (step : Nat) :
    .stepFinished step ∉ events :=
  fun hin => (h _ hin).2 rfl

theorem started_of_openStep? (h : openStep? told = some step) :
    step ≠ 0 ∧ ∃ name, .stepStarting step name ∈ told := by
  have hin : (.start, step) ∈ lifeline told := by
    unfold openStep? at h
    split at h
    · obtain rfl := Option.some.inj h
      exact List.mem_of_getLast? ‹_›
    · cases h
  obtain ⟨event, hevent, hturn⟩ := List.mem_filterMap.mp hin
  cases event with
  | stepStarting n name =>
    obtain ⟨hne, heq⟩ := Option.ite_none_left_eq_some.mp hturn
    obtain ⟨_, rfl⟩ := Prod.mk.inj (Option.some.inj heq)
    exact ⟨hne, name, hevent⟩
  | stepFinished n =>
    obtain ⟨_, heq⟩ := Option.ite_none_left_eq_some.mp hturn
    cases heq
  | _ => cases hturn

theorem continues_nil : Continues told [] := by
  intro earlier event hin
  simp at hin

theorem continues_concat : Continues told (events ++ [event]) ↔
    Continues told events ∧ Fits (told ++ events) event := by
  constructor
  · intro h
    refine ⟨fun earlier e hin => h earlier e ?_, h events event List.prefix_rfl⟩
    exact hin.trans (List.prefix_append _ _)
  · rintro ⟨hevents, hevent⟩ earlier e hin
    rcases List.prefix_concat_iff.mp hin with heq | hin
    · obtain ⟨rfl, hlast⟩ := List.append_inj' heq rfl
      obtain rfl : e = event := by simpa using hlast
      exact hevent
    · exact hevents earlier e hin

theorem continues_append : Continues told (events ++ more) ↔
    Continues told events ∧ Continues (told ++ events) more := by
  induction more using List.reverseRecOn with
  | nil => simp [continues_nil]
  | append_singleton more event ih =>
    rw [← List.append_assoc, continues_concat, continues_concat, ih, and_assoc,
      List.append_assoc told]

theorem Continues.of_prefix (h : Continues told events) (hin : more <+: events) :
    Continues told more :=
  fun earlier event hin' => h earlier event (hin'.trans hin)

theorem Story.append (h : Story told) (hevents : Continues told events) :
    Story (told ++ events) :=
  continues_append.mpr ⟨h, hevents⟩

theorem Story.oneAtATime (h : Story told) : OneAtATime told := by
  induction told using List.reverseRecOn with
  | nil => exact ⟨[], rfl⟩
  | append_singleton told event ih =>
    obtain ⟨hbefore, hfits⟩ := continues_concat.mp h
    obtain ⟨steps, hsteps⟩ := ih hbefore
    unfold OneAtATime
    cases hturn : turn? event with
    | none =>
      refine ⟨steps, ?_⟩
      rw [lifeline_concat, hturn, openStep?_concat_of_none hturn]
      simpa using hsteps
    | some turn =>
      -- A start finds every step finished, and a finish finds its own step open.
      cases event with
      | stepStarting step name =>
        obtain ⟨hne, _⟩ := Option.ite_none_left_eq_some.mp hturn
        have hclosed : openStep? told = none := hfits
        refine ⟨steps, ?_⟩
        rw [lifeline_concat, openStep?_concat_start name hne, hsteps, hclosed]
        simp [turn?, hne]
      | stepFinished step =>
        obtain ⟨hne, _⟩ := Option.ite_none_left_eq_some.mp hturn
        have hopen : openStep? told = some step := hfits
        refine ⟨steps ++ [step], ?_⟩
        rw [lifeline_concat, openStep?_concat_finish hne, hsteps, hopen]
        simp [turn?, hne]
      | _ => cases hturn

theorem Story.not_mem_finish_zero (h : Story told) : .stepFinished 0 ∉ told := by
  intro hin
  obtain ⟨earlier, later, rfl⟩ := List.append_of_mem hin
  have hfits : Fits earlier (.stepFinished 0) := h earlier (.stepFinished 0) ⟨later, by simp⟩
  have hopen : openStep? earlier = some 0 := hfits
  exact (started_of_openStep? hopen).1 rfl

/-! ## What an input adds -/

inductive Input where
  | message (m : Message)
  | upload (bytes : Int)

def Input.text : Input → String
  | .message m => m.stream
  | .upload _ => ""

/-- A step line that starts this step under this name. -/
def StartsStep (text : String) (step : Nat) (name : String) : Prop :=
  ∃ line, StepLine.read? text.toList = some line ∧ readDigits? line.digits = some step ∧
    String.ofList line.name = name

/-- A step line whose number is too large for any step. -/
def Oversized (text : String) : Prop :=
  ∃ line, StepLine.read? text.toList = some line ∧ readDigits? line.digits = none

def closing (told : List Event) : List Event :=
  (openStep? told).toList.map .stepFinished

/-- What a text tells after what was told before. -/
inductive TextAdds (told : List Event) (text : String) : List Event → Prop where
  | line {step : Nat} {name : String} (starts : StartsStep text step name) :
      TextAdds told text (closing told ++ [.stepStarting step name])
  | output (unread : StepLine.read? text.toList = none) :
      TextAdds told text [.stepOutput (currentStep told) text]
  | leftOut (unread : StepLine.read? text.toList = none) : TextAdds told text []

/-- What the progress report of a message tells, if it holds one. -/
inductive ReportAdds (told : List Event) (m : Message) : List Event → Prop where
  | pull (reports : m.status ≠ "" ∨ m.progress.isSome) (fetches : Fetches told) :
      ReportAdds told m [.stepPullProgress (currentStep told)
        { message := m.status, detail := m.progress, id := m.id }]
  | download (reports : m.status ≠ "" ∨ m.progress.isSome) (other : ¬ Fetches told) :
      ReportAdds told m [.stepDownloadProgress (currentStep told)
        (m.progress.getD {}).current (m.progress.getD {}).total]
  | none (status : m.status = "") (progress : m.progress = none) : ReportAdds told m []

def failureEvents (m : Message) : List Event :=
  m.failure?.toList.map .buildFailed

/-- All that an input adds to what was told before, as long as the handler lets it. -/
inductive Account (told : List Event) : Input → List Event → Prop where
  | message {m : Message} {text report : List Event} (said : TextAdds told m.stream text)
      (reported : ReportAdds (told ++ text) m report) :
      Account told (.message m) (text ++ (report ++ failureEvents m))
  | oversized {m : Message} (oversized : Oversized m.stream) : Account told (.message m) []
  | upload (bytes : Int) :
      Account told (.upload bytes) [.contextUploadProgress (currentStep told) bytes]

theorem closing_continues (told : List Event) : Continues told (closing told) := by
  unfold closing
  cases h : openStep? told with
  | none => exact continues_nil
  | some n => exact continues_concat.mpr ⟨continues_nil, by simpa [Fits] using h⟩

theorem openStep?_closing (told : List Event) : openStep? (told ++ closing told) = none := by
  unfold closing
  cases h : openStep? told with
  | none => simpa using h
  | some n => exact openStep?_concat_finish (started_of_openStep? h).1

theorem mem_closing : .stepFinished step ∈ closing told ↔ openStep? told = some step := by
  simp [closing]

theorem TextAdds.continues {text : String} (h : TextAdds told text events) :
    Continues told events := by
  cases h with
  | line _ => exact continues_concat.mpr ⟨closing_continues told, openStep?_closing told⟩
  | output _ => exact continues_concat.mpr ⟨continues_nil, by simp [Fits]⟩
  | leftOut _ => exact continues_nil

theorem ReportAdds.continues {m : Message} (h : ReportAdds told m events) :
    Continues told events := by
  cases h with
  | pull _ hfetches => exact continues_concat.mpr ⟨continues_nil, by simp [Fits, hfetches]⟩
  | download _ hother => exact continues_concat.mpr ⟨continues_nil, by simp [Fits, hother]⟩
  | none _ _ => exact continues_nil

theorem failureEvents_continues (told : List Event) (m : Message) :
    Continues told (failureEvents m) := by
  unfold failureEvents
  cases m.failure? with
  | none => exact continues_nil
  | some message => exact continues_concat.mpr ⟨continues_nil, by simp [Fits]⟩

theorem Account.continues {input : Input} (h : Account told input events) :
    Continues told events := by
  cases h with
  | message said reported =>
    exact continues_append.mpr ⟨said.continues,
      continues_append.mpr ⟨reported.continues, failureEvents_continues _ _⟩⟩
  | oversized _ => exact continues_nil
  | upload bytes => exact continues_concat.mpr ⟨continues_nil, by simp [Fits]⟩

theorem ReportAdds.steady {m : Message} (h : ReportAdds told m events) :
    ∀ event ∈ events, Steady event ∧ event.isFailure = false := by
  intro event hin
  cases h with
  | pull _ _ =>
    obtain rfl := List.mem_singleton.mp hin
    exact ⟨⟨nofun, nofun⟩, rfl⟩
  | download _ _ =>
    obtain rfl := List.mem_singleton.mp hin
    exact ⟨⟨nofun, nofun⟩, rfl⟩
  | none _ _ => cases hin

theorem failureEvents_steady (m : Message) : ∀ event ∈ failureEvents m, Steady event := by
  intro event hin
  obtain ⟨message, _, rfl⟩ := List.mem_map.mp hin
  exact ⟨nofun, nofun⟩

theorem StartsStep.unique {text : String} {n : Nat} {title : String} (h : StartsStep text n title) :
    StepLine.read? text.toList ≠ none ∧ ¬ Oversized text := by
  obtain ⟨line, hread, hfits, _⟩ := h
  refine ⟨by simp [hread], ?_⟩
  rintro ⟨other, hread', hlarge⟩
  obtain rfl : line = other := by simpa [hread] using hread'
  rw [hfits] at hlarge
  cases hlarge

theorem TextAdds.finishes_iff {text : String} (h : TextAdds told text events) :
    .stepFinished step ∈ events ↔ openStep? told = some step ∧ ∃ n title, StartsStep text n title := by
  cases h with
  | @line n title starts =>
    simp only [List.mem_append, List.mem_singleton, reduceCtorEq, or_false, mem_closing]
    exact ⟨fun hopen => ⟨hopen, n, title, starts⟩, And.left⟩
  | output unread =>
    refine ⟨fun hin => by simp at hin, ?_⟩
    rintro ⟨_, _, _, hstarts⟩
    exact absurd unread hstarts.unique.1
  | leftOut unread =>
    refine ⟨fun hin => by simp at hin, ?_⟩
    rintro ⟨_, _, _, hstarts⟩
    exact absurd unread hstarts.unique.1

/-- The open step is finished by a step line and by nothing else. -/
theorem Account.finishes_iff {input : Input} (h : Account told input events) :
    .stepFinished step ∈ events ↔
      openStep? told = some step ∧ ∃ n title, StartsStep input.text n title := by
  cases h with
  | @message m text report said reported =>
    have hreport : .stepFinished step ∉ report :=
      not_mem_of_steady (fun e he => (reported.steady e he).1) step
    have hfailure : .stepFinished step ∉ failureEvents m :=
      not_mem_of_steady (failureEvents_steady m) step
    rw [List.mem_append, List.mem_append, or_iff_left (not_or_intro hreport hfailure)]
    exact said.finishes_iff
  | oversized hlarge =>
    refine ⟨fun hin => by simp at hin, ?_⟩
    rintro ⟨_, _, _, hstarts⟩
    exact absurd hlarge hstarts.unique.2
  | upload bytes =>
    refine ⟨fun hin => by simp at hin, ?_⟩
    rintro ⟨_, _, _, hstarts⟩
    exact absurd rfl hstarts.unique.1

theorem Account.finish_first {input : Input} (h : Account told input events)
    (hin : .stepFinished step ∈ events) : [.stepFinished step] <+: events := by
  obtain ⟨hopen, n, title, hstarts⟩ := h.finishes_iff.mp hin
  cases h with
  | message said _ =>
    cases said with
    | line _ =>
      rw [closing, hopen]
      exact ⟨_, rfl⟩
    | output unread => exact absurd unread hstarts.unique.1
    | leftOut unread => exact absurd unread hstarts.unique.1
  | oversized hlarge => exact absurd hlarge hstarts.unique.2
  | upload bytes => exact absurd rfl hstarts.unique.1

/-- The open step is finished before anything else is told, so that it is finished also if the
handler stops half way. -/
theorem Account.finishes_iff_of_prefix {input : Input} (h : Account told input events)
    (hin : more <+: events) (hmore : more = events ∨ more ≠ []) :
    .stepFinished step ∈ more ↔
      openStep? told = some step ∧ ∃ n title, StartsStep input.text n title := by
  rw [← h.finishes_iff]
  constructor
  · exact fun hfinish => hin.subset hfinish
  · intro hfinish
    rcases hmore with rfl | hsome
    · exact hfinish
    · have hlength : 1 ≤ more.length := List.length_pos_iff.mpr hsome
      have hfirst := List.prefix_of_prefix_length_le (h.finish_first hfinish) hin hlength
      exact hfirst.subset List.mem_cons_self

theorem TextAdds.no_failure {text : String} (h : TextAdds told text events) :
    ∀ event ∈ events, event.isFailure = false := by
  intro event hin
  cases h with
  | line _ =>
    rcases List.mem_append.mp hin with hin | hin
    · obtain ⟨_, _, rfl⟩ := List.mem_map.mp hin
      rfl
    · obtain rfl := List.mem_singleton.mp hin
      rfl
  | output _ =>
    obtain rfl := List.mem_singleton.mp hin
    rfl
  | leftOut _ => cases hin

/-- A failure of the build is the last event that an input adds. -/
theorem Account.failure_last {input : Input} {earlier : List Event} (h : Account told input events)
    (hin : earlier ++ [event] <+: events) (hfailure : event.isFailure = true) :
    events = earlier ++ [event] := by
  cases h with
  | @message m text report said reported =>
    have hnone : event ∉ text ++ report := by
      intro hmem
      rcases List.mem_append.mp hmem with hmem | hmem
      · exact absurd hfailure (by simp [said.no_failure event hmem])
      · exact absurd hfailure (by simp [(reported.steady event hmem).2])
    rw [← List.append_assoc] at hin ⊢
    unfold failureEvents at hin ⊢
    cases hm : m.failure? with
    | none =>
      have hmem := hin.subset (List.mem_append_right earlier List.mem_cons_self)
      exact absurd (by simpa [hm] using hmem) hnone
    | some message =>
      rw [hm] at hin
      rcases List.prefix_concat_iff.mp hin with heq | hin
      · exact heq.symm
      · exact absurd (hin.subset (by simp)) hnone
  | oversized _ => simp at hin
  | upload bytes =>
    obtain rfl : event = .contextUploadProgress (currentStep told) bytes := by
      have hmem := hin.subset (List.mem_append_right earlier List.mem_cons_self)
      exact List.mem_singleton.mp hmem
    cases hfailure

theorem Continues.fitting (h : Continues told events)
    (hlast : ∀ earlier event, earlier ++ [event] <+: events → event.isFailure = true →
      events = earlier ++ [event]) : Delivery.Fitting told events := by
  intro earlier event hin
  refine ⟨?_, hlast earlier event hin⟩
  rintro step rfl
  have hopen : openStep? (told ++ earlier) = some step := h earlier _ hin
  exact (started_of_openStep? hopen).2

theorem Account.fitting {input : Input} (h : Account told input events) :
    Delivery.Fitting told events :=
  h.continues.fitting fun _ _ => h.failure_last

theorem closing_eq_of_prefix (hin : events <+: closing told) (hsome : events ≠ []) :
    events = closing told := by
  unfold closing at hin ⊢
  cases h : openStep? told with
  | none => exact absurd (by simpa [h] using hin) hsome
  | some n =>
    have hone : events <+: [] ++ [.stepFinished n] := by simpa [h] using hin
    rcases List.prefix_concat_iff.mp hone with heq | hin
    · exact heq
    · exact absurd (List.prefix_nil.mp hin) hsome

theorem closing_fitting (told : List Event) : Delivery.Fitting told (closing told) := by
  apply (closing_continues told).fitting
  intro earlier event hin hfailure
  have hmem := hin.subset (List.mem_append_right earlier List.mem_cons_self)
  obtain ⟨_, _, rfl⟩ := List.mem_map.mp hmem
  cases hfailure

end BuildProgress.Legacy
