import BuildProgress.Build.Group
import Mathlib.Data.List.Induction

/-!
# How a group of tasks settles the outcome of a build

While a group waits, its tasks end in some order, and the caller may cancel the build at any moment
in between. The group notes every error, and cancels its own token at the first one. What it reports
in the end depends on which errors there were and on whether the caller cancelled; the order in which
the tasks ended decides only which of several errors is reported.
-/

namespace BuildProgress.Build

set_option autoImplicit false

/-- The tasks of a build with what comes of each: one of them translates, and gives the image. -/
structure Tasks where
  translator : Except BuildError String
  others : List (Except BuildError Unit)
deriving Repr

def Tasks.ends (tasks : Tasks) : List TaskEnd :=
  tasks.translator.map some :: tasks.others.map fun result => result.map fun _ => none

/-- What can happen while a group waits for its tasks. -/
inductive Moment where
  | callerCancels
  | taskEnds (ending : TaskEnd)
deriving DecidableEq

def Moment.ending? : Moment → Option TaskEnd
  | callerCancels => none
  | taskEnds ending => some ending

/-- A group that waits, and the token of the caller. The token of the group is a child of that one,
which is not cancelled with it. -/
structure Watch where
  group : Group := {}
  callerCancelled : Bool := false
deriving DecidableEq

namespace Watch

def observe (w : Watch) : Moment → Watch
  | .callerCancels => { w with callerCancelled := true }
  | .taskEnds ending => { w with group := w.group.collect ending }

def after (moments : List Moment) : Watch :=
  moments.foldl observe {}

def outcome (w : Watch) : Except BuildError String :=
  w.group.outcome w.callerCancelled

end Watch

def failure? : TaskEnd → Option BuildError
  | .ok _ => none
  | .error e => some e

def image? : TaskEnd → Option String
  | .ok image => image
  | .error _ => none

/-- The ends of tasks among some moments, in the order in which they came. -/
def endsOf (moments : List Moment) : List TaskEnd :=
  moments.filterMap Moment.ending?

/-- The errors among some moments, in the order in which they came. -/
def failuresOf (moments : List Moment) : List BuildError :=
  (endsOf moments).filterMap failure?

def imagesOf (moments : List Moment) : List String :=
  (endsOf moments).filterMap image?

section Concat

variable (moments : List Moment) (ending : TaskEnd)

theorem endsOf_concat_cancel : endsOf (moments ++ [.callerCancels]) = endsOf moments := by
  simp [endsOf, Moment.ending?]

theorem endsOf_concat_end :
    endsOf (moments ++ [.taskEnds ending]) = endsOf moments ++ [ending] := by
  simp [endsOf, Moment.ending?]

theorem failuresOf_concat_cancel :
    failuresOf (moments ++ [.callerCancels]) = failuresOf moments := by
  rw [failuresOf, endsOf_concat_cancel, failuresOf]

theorem failuresOf_concat_end : failuresOf (moments ++ [.taskEnds ending]) =
    failuresOf moments ++ (failure? ending).toList := by
  rw [failuresOf, endsOf_concat_end, List.filterMap_append, failuresOf]
  cases h : failure? ending <;> simp [h]

theorem imagesOf_concat_cancel : imagesOf (moments ++ [.callerCancels]) = imagesOf moments := by
  rw [imagesOf, endsOf_concat_cancel, imagesOf]

theorem imagesOf_concat_end : imagesOf (moments ++ [.taskEnds ending]) =
    imagesOf moments ++ (image? ending).toList := by
  rw [imagesOf, endsOf_concat_end, List.filterMap_append, imagesOf]
  cases h : image? ending <;> simp [h]

end Concat

namespace Group

/-- What a group holds after some tasks have ended: its token is cancelled if and only if there was
an error, and the image is the one that was given last. -/
structure Holds (moments : List Moment) (g : Group) : Prop where
  errors : g.errors = failuresOf moments
  cancelled : g.cancelled = !(failuresOf moments).isEmpty
  image : g.imageId = (imagesOf moments).getLast?

variable {moments : List Moment} {g : Group}

theorem Holds.initial : Holds [] {} :=
  ⟨rfl, rfl, rfl⟩

theorem Holds.callerCancels (h : g.Holds moments) : g.Holds (moments ++ [.callerCancels]) where
  errors := h.errors.trans (by rw [failuresOf_concat_cancel])
  cancelled := h.cancelled.trans (by rw [failuresOf_concat_cancel])
  image := h.image.trans (by rw [imagesOf_concat_cancel])

theorem Holds.taskEnds (h : g.Holds moments) (ending : TaskEnd) :
    (g.collect ending).Holds (moments ++ [.taskEnds ending]) := by
  obtain ⟨herrors, hcancelled, himage⟩ := h
  rcases ending with e | _ | id
  · refine ⟨?_, ?_, ?_⟩
    · rw [failuresOf_concat_end, ← herrors]
      rfl
    · rw [failuresOf_concat_end, collect, hcancelled, herrors]
      simp [failure?]
    · rw [imagesOf_concat_end, collect, himage]
      simp [image?]
  · refine ⟨?_, ?_, ?_⟩
    · rw [failuresOf_concat_end, collect, herrors]
      simp [failure?]
    · rw [failuresOf_concat_end, collect, hcancelled]
      simp [failure?]
    · rw [imagesOf_concat_end, collect, himage]
      simp [image?]
  · refine ⟨?_, ?_, ?_⟩
    · rw [failuresOf_concat_end, collect, herrors]
      simp [failure?]
    · rw [failuresOf_concat_end, collect, hcancelled]
      simp [failure?]
    · rw [imagesOf_concat_end, collect]
      simp [image?]

end Group

namespace Watch

theorem after_concat (moments : List Moment) (moment : Moment) :
    after (moments ++ [moment]) = (after moments).observe moment := by
  rw [after, List.foldl_append]
  rfl

theorem holds_after (moments : List Moment) : (after moments).group.Holds moments := by
  induction moments using List.reverseRecOn with
  | nil => exact .initial
  | append_singleton moments moment ih =>
    rw [after_concat]
    cases moment with
    | callerCancels => exact ih.callerCancels
    | taskEnds ending => exact ih.taskEnds ending

theorem callerCancelled_after (moments : List Moment) :
    (after moments).callerCancelled = true ↔ .callerCancels ∈ moments := by
  induction moments using List.reverseRecOn with
  | nil => simp [after]
  | append_singleton moments moment ih =>
    rw [after_concat]
    cases moment with
    | callerCancels => simp [observe]
    | taskEnds ending => simp [observe, ih]

/-- The token of a group goes from open to cancelled at the first error, and at nothing else. -/
theorem cancels_iff (moments : List Moment) (moment : Moment) :
    (after (moments ++ [moment])).group.cancelled ≠ (after moments).group.cancelled ↔
      failuresOf moments = [] ∧ ∃ e, moment = .taskEnds (.error e) := by
  rw [(holds_after _).cancelled, (holds_after _).cancelled]
  rcases moment with _ | e | image
  · simp [failuresOf_concat_cancel]
  · cases failuresOf moments <;> simp [failuresOf_concat_end, failure?]
  · simp [failuresOf_concat_end, failure?]

end Watch

section Outcome

variable {tasks : Tasks} {moments : List Moment}

theorem mem_filterMap_failure? {ends : List TaskEnd} {e : BuildError} :
    e ∈ ends.filterMap failure? ↔ .error e ∈ ends := by
  rw [List.mem_filterMap]
  constructor
  · rintro ⟨e' | image, hmem, h⟩
    · exact Option.some.inj h ▸ hmem
    · cases h
  · exact fun h => ⟨_, h, rfl⟩

theorem mem_failuresOf {e : BuildError} : e ∈ failuresOf moments ↔ .error e ∈ endsOf moments :=
  mem_filterMap_failure?

theorem mem_failuresOf_iff (hall : (endsOf moments).Perm tasks.ends) {e : BuildError} :
    e ∈ failuresOf moments ↔ .error e ∈ tasks.ends :=
  mem_failuresOf.trans hall.mem_iff

theorem failuresOf_eq_nil (hall : (endsOf moments).Perm tasks.ends)
    (hgood : ∀ e, .error e ∉ tasks.ends) : failuresOf moments = [] :=
  List.eq_nil_iff_forall_not_mem.2 fun e he => hgood e ((mem_failuresOf_iff hall).1 he)

/-- If no task failed then the translator gave an image, and no other task did. -/
theorem image_of_no_failure (hall : (endsOf moments).Perm tasks.ends)
    (hnone : failuresOf moments = []) :
    ∃ id, tasks.translator = .ok id ∧ imagesOf moments = [id] := by
  rcases htranslator : tasks.translator with e | id
  · have hfailed : e ∈ failuresOf moments := by
      rw [mem_failuresOf_iff hall, Tasks.ends, htranslator]
      exact List.mem_cons_self
    rw [hnone] at hfailed
    cases hfailed
  · refine ⟨id, rfl, List.perm_singleton.1 ?_⟩
    have hothers : (tasks.others.map fun result => result.map fun _ => none).filterMap image? = [] := by
      rw [List.filterMap_eq_nil_iff]
      intro ending hmem
      obtain ⟨result, -, rfl⟩ := List.mem_map.1 hmem
      cases result <;> rfl
    have hfirst : image? ((Except.ok id : Except BuildError String).map some) = some id := rfl
    have himages := hall.filterMap image?
    rwa [Tasks.ends, htranslator, List.filterMap_cons_some hfirst, hothers] at himages

/-- The outcome by rank: a handler that stopped, a caller who cancelled, the first error, the image. -/
theorem outcome_eq (hall : (endsOf moments).Perm tasks.ends) :
    (Watch.after moments).outcome =
      if .callbackFailed ∈ failuresOf moments then .error .callbackFailed
      else if .callerCancels ∈ moments then .error .cancelled
      else match (failuresOf moments).head? with
        | some e => .error e
        | none => tasks.translator := by
  have hholds := Watch.holds_after moments
  have hcaller := Watch.callerCancelled_after moments
  rw [Watch.outcome, Group.outcome, Group.error?, hholds.errors, hholds.image]
  by_cases hstopped : .callbackFailed ∈ failuresOf moments
  · rw [if_pos hstopped, if_pos hstopped]
  · rw [if_neg hstopped, if_neg hstopped]
    by_cases hcancelled : .callerCancels ∈ moments
    · rw [if_pos (hcaller.2 hcancelled), if_pos hcancelled]
    · rw [if_neg (hcaller.not.2 hcancelled), if_neg hcancelled]
      cases hfailures : failuresOf moments with
      | cons e later => rfl
      | nil =>
        obtain ⟨id, htranslator, himages⟩ := image_of_no_failure hall hfailures
        rw [htranslator, himages]
        rfl

/-- A group never misses the image: it complains of that only if a task did. -/
theorem imageIdLost_mem_ends (hall : (endsOf moments).Perm tasks.ends)
    (h : (Watch.after moments).outcome = .error (.contractViolation .imageIdLost)) :
    .error (.contractViolation .imageIdLost) ∈ tasks.ends := by
  rw [outcome_eq hall] at h
  split_ifs at h
  · cases h
  · cases h
  · rcases hfailures : failuresOf moments with _ | ⟨e, later⟩
    · rw [hfailures] at h
      rw [Tasks.ends, show tasks.translator = _ from h]
      exact List.mem_cons_self
    · rw [hfailures] at h
      rw [← mem_failuresOf_iff hall, hfailures, ← Except.error.inj h]
      exact List.mem_cons_self

/-- Two orders in which the same tasks may end give one outcome, or else two errors of tasks. -/
theorem outcome_of_other_order {others : List Moment} (hall : (endsOf moments).Perm tasks.ends)
    (hall' : (endsOf others).Perm tasks.ends)
    (hcaller : .callerCancels ∈ others ↔ .callerCancels ∈ moments) :
    (Watch.after others).outcome = (Watch.after moments).outcome ∨
      .error .callbackFailed ∉ tasks.ends ∧ ∃ e e', .error e ∈ tasks.ends ∧
        .error e' ∈ tasks.ends ∧ (Watch.after moments).outcome = .error e ∧
        (Watch.after others).outcome = .error e' := by
  have hsame : (failuresOf others).Perm (failuresOf moments) :=
    (hall'.trans hall.symm).filterMap failure?
  have hstop := hsame.mem_iff (a := .callbackFailed)
  have houtcome := outcome_eq hall
  have houtcome' := outcome_eq hall'
  by_cases hstopped : .callbackFailed ∈ failuresOf moments
  · left
    rw [houtcome, houtcome', if_pos hstopped, if_pos (hstop.2 hstopped)]
  rw [if_neg hstopped] at houtcome
  rw [if_neg (hstop.not.2 hstopped)] at houtcome'
  by_cases hcancelled : .callerCancels ∈ moments
  · left
    rw [houtcome, houtcome', if_pos hcancelled, if_pos (hcaller.2 hcancelled)]
  rw [if_neg hcancelled] at houtcome
  rw [if_neg (hcaller.not.2 hcancelled)] at houtcome'
  rcases hfailures : failuresOf moments with _ | ⟨e, later⟩
  · left
    rw [hfailures] at houtcome hsame
    rw [hsame.eq_nil] at houtcome'
    exact houtcome'.trans houtcome.symm
  · right
    rcases hfailures' : failuresOf others with _ | ⟨e', later'⟩
    · rw [hfailures, hfailures'] at hsame
      cases hsame.symm.eq_nil
    · rw [hfailures] at houtcome
      rw [hfailures'] at houtcome'
      refine ⟨(mem_failuresOf_iff hall).not.1 hstopped, e, e', ?_, ?_, houtcome, houtcome'⟩
      · rw [← mem_failuresOf_iff hall, hfailures]
        exact List.mem_cons_self
      · rw [← mem_failuresOf_iff hall', hfailures']
        exact List.mem_cons_self

/-- A build whose tasks have all ended, in whatever order, ends as the handler wants it if that
stopped the build, else as the caller wants it if that cancelled, else with the first error, else with
the image. The group cancels its token at the first error, and never that of the caller. If the order
of the ends has any effect then on which of several errors is reported. -/
theorem outcome_settled (tasks : Tasks) (moments : List Moment)
    (hall : (endsOf moments).Perm tasks.ends) :
    (.error .callbackFailed ∈ tasks.ends →
      (Watch.after moments).outcome = .error .callbackFailed) ∧
    (.error .callbackFailed ∉ tasks.ends → .callerCancels ∈ moments →
      (Watch.after moments).outcome = .error .cancelled) ∧
    (.error .callbackFailed ∉ tasks.ends → .callerCancels ∉ moments →
      ∀ earlier e later, endsOf moments = earlier ++ .error e :: later →
        (∀ e', .error e' ∉ earlier) → (Watch.after moments).outcome = .error e) ∧
    ((∀ e, .error e ∉ tasks.ends) → .callerCancels ∉ moments →
      ∃ id, tasks.translator = .ok id ∧ (Watch.after moments).outcome = .ok id) ∧
    ((Watch.after moments).outcome = .error (.contractViolation .imageIdLost) →
      .error (.contractViolation .imageIdLost) ∈ tasks.ends) ∧
    (∀ earlier moment, earlier ++ [moment] <+: moments →
      ((Watch.after (earlier ++ [moment])).group.cancelled ≠ (Watch.after earlier).group.cancelled ↔
        failuresOf earlier = [] ∧ ∃ e, moment = .taskEnds (.error e))) ∧
    ((Watch.after moments).callerCancelled = true ↔ .callerCancels ∈ moments) ∧
    ∀ others, (endsOf others).Perm tasks.ends →
      (.callerCancels ∈ others ↔ .callerCancels ∈ moments) →
      (Watch.after others).outcome = (Watch.after moments).outcome ∨
        .error .callbackFailed ∉ tasks.ends ∧ ∃ e e', .error e ∈ tasks.ends ∧
          .error e' ∈ tasks.ends ∧ (Watch.after moments).outcome = .error e ∧
          (Watch.after others).outcome = .error e' := by
  have houtcome := outcome_eq hall
  have hstop := mem_failuresOf_iff (e := .callbackFailed) hall
  refine ⟨fun hstopped => ?_, fun hnot hcancelled => ?_, fun hnot hcancelled => ?_,
    fun hgood hcancelled => ?_, imageIdLost_mem_ends hall,
    fun earlier moment _ => Watch.cancels_iff earlier moment, Watch.callerCancelled_after moments,
    fun _ hall' => outcome_of_other_order hall hall'⟩
  · rw [houtcome, if_pos (hstop.2 hstopped)]
  · rw [houtcome, if_neg (hstop.not.2 hnot), if_pos hcancelled]
  · intro earlier e later hends hearlier
    have hnone : earlier.filterMap failure? = [] := by
      rw [List.filterMap_eq_nil_iff]
      rintro (e' | image) hmem
      · exact absurd hmem (hearlier e')
      · rfl
    have hfirst : (failuresOf moments).head? = some e := by
      rw [failuresOf, hends, List.filterMap_append, hnone]
      rfl
    rw [houtcome, if_neg (hstop.not.2 hnot), if_neg hcancelled, hfirst]
  · have hnone := failuresOf_eq_nil hall hgood
    obtain ⟨id, htranslator, -⟩ := image_of_no_failure hall hnone
    refine ⟨id, htranslator, ?_⟩
    rw [houtcome, if_neg (hstop.not.2 (hgood _)), if_neg hcancelled, hnone]
    exact htranslator

end Outcome

/-- The connection is lost, and the translator is cancelled for that. -/
def lostTasks : Tasks where
  translator := .error .cancelled
  others := [.ok (), .error (.daemon "image_build" "connection reset")]

/-- The submitter ends before the translator does. -/
def lostMoments : List Moment :=
  [.taskEnds (.ok none), .taskEnds (.error (.daemon "image_build" "connection reset")),
    .taskEnds (.error .cancelled)]

theorem outcome_settled_lost : (endsOf lostMoments).Perm lostTasks.ends ∧
    (Watch.after lostMoments).outcome = .error (.daemon "image_build" "connection reset") := by
  have hall : (endsOf lostMoments).Perm lostTasks.ends := by decide
  obtain ⟨-, -, hfirst, -⟩ := outcome_settled lostTasks lostMoments hall
  refine ⟨hall, hfirst (by decide) (by decide) [.ok none] _ [.error .cancelled] rfl ?_⟩
  simp

end BuildProgress.Build
