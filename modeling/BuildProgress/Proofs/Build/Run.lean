import BuildProgress.Build.Run
import BuildProgress.Proofs.Build.Group
import BuildProgress.Proofs.Build.Pipeline

/-!
# The run of a build is one of its interleavings

A build is run as one sequence: all messages are translated, and the end of the response is looked at
after that. Its tasks may take turns in any other order. At every moment of that, what is still to be
translated comes to what the sequence comes to; and what tasks make of being cancelled adds nothing to
the outcome. So the outcome of a run is that of a group that watches the tasks, and its events are
those that the tasks tell when none of them can go on.
-/

namespace BuildProgress.Build

set_option autoImplicit false

open Working

section Watching

/-- The ends that a group learns something from: an error or an image. -/
def telling (ends : List TaskEnd) : List TaskEnd :=
  ends.filter (· ≠ .ok none)

theorem telling_translated (result : Except BuildError String) :
    telling [.ok none, result.map some] = [result.map some] := by
  cases result <;> rfl

/-- These are the ends of all tasks if those are the ends of the tasks that end by themselves: the
others end well or, after an error, as they are cancelled. -/
def Completes (ends all : List TaskEnd) : Prop :=
  ∃ left, telling all = telling ends ++ left ∧
    (left = [] ∨ (∃ e, .error e ∈ ends) ∧ .error .callbackFailed ∉ left)

theorem Watch.group_after (moments : List Moment) :
    (after moments).group = Group.ofEnds (endsOf moments) := by
  induction moments using List.reverseRecOn with
  | nil => rfl
  | append_singleton moments moment ih =>
    rw [after_concat]
    cases moment with
    | callerCancels =>
      rw [endsOf_concat_cancel]
      exact ih
    | taskEnds ending =>
      rw [endsOf_concat_end, Group.ofEnds, List.foldl_concat]
      exact congrArg (·.collect ending) ih

namespace Group

theorem errors_ofEnds (ends : List TaskEnd) : (ofEnds ends).errors = ends.filterMap failure? := by
  have hends : endsOf (ends.map .taskEnds) = ends := by
    rw [endsOf, List.filterMap_map]
    exact List.filterMap_some
  have herrors := (Watch.holds_after (ends.map .taskEnds)).errors
  rwa [Watch.group_after, failuresOf, hends] at herrors

theorem ofEnds_telling (ends : List TaskEnd) : ofEnds (telling ends) = ofEnds ends := by
  unfold ofEnds
  generalize ({} : Group) = g
  induction ends generalizing g with
  | nil => rfl
  | cons ending ends ih =>
    by_cases hquiet : ending = .ok none
    · subst hquiet
      exact ih g
    · have hkept : telling (ending :: ends) = ending :: telling ends := by simp [telling, hquiet]
      rw [hkept]
      exact ih (g.collect ending)

/-- Once there is an error, another one counts only if a handler stopped the build with it. -/
theorem outcome_of_more_errors {g g' : Group} {more : List BuildError}
    (herrors : g'.errors = g.errors ++ more) (hsome : g.errors ≠ [])
    (hmore : .callbackFailed ∉ more) (callerCancelled : Bool) :
    g'.outcome callerCancelled = g.outcome callerCancelled := by
  obtain ⟨first, later, hfirst⟩ := List.exists_cons_of_ne_nil hsome
  have hstopped : .callbackFailed ∈ g'.errors ↔ .callbackFailed ∈ g.errors := by
    rw [herrors, List.mem_append, or_iff_left hmore]
  have hhead : g'.errors.head? = g.errors.head? := by
    rw [herrors, hfirst]
    rfl
  have hsame : g'.error? callerCancelled = g.error? callerCancelled := by
    unfold error?
    simp only [hstopped, hhead]
  obtain ⟨e, he⟩ : ∃ e, g.error? callerCancelled = some e := by
    unfold error?
    rw [hfirst]
    split_ifs <;> exact ⟨_, rfl⟩
  rw [outcome, outcome, hsame, he]

theorem outcome_of_completes {ends all : List TaskEnd} (h : Completes ends all)
    (callerCancelled : Bool) :
    (ofEnds all).outcome callerCancelled = (ofEnds ends).outcome callerCancelled := by
  obtain ⟨left, hall, rfl | ⟨⟨e, he⟩, hleft⟩⟩ := h
  · rw [← ofEnds_telling all, hall, List.append_nil, ofEnds_telling]
  · have herrors : (ofEnds all).errors = (ofEnds ends).errors ++ left.filterMap failure? := by
      rw [← ofEnds_telling all, hall, errors_ofEnds, List.filterMap_append, ← errors_ofEnds,
        ofEnds_telling]
    have hsome : (ofEnds ends).errors ≠ [] := by
      rw [errors_ofEnds]
      exact List.ne_nil_of_mem (mem_filterMap_failure?.2 he)
    exact outcome_of_more_errors herrors hsome (mem_filterMap_failure?.not.2 hleft) callerCancelled

end Group

end Watching

section Translating

variable {handler : Handler} {w u : Working Translator} {message : BackendMessage}

theorem pump_of_cancelled (handler : Handler) (messages : List BackendMessage)
    (h : w.delivery.cancelled = true) :
    Translator.pump handler messages w = (.error .cancelled, w) :=
  Translator.forEach_unlessCancelled_of_cancelled (Translator.handle handler) messages
    (Translator.finish handler) h

theorem pump_nil (h : w.delivery.cancelled = false) :
    Translator.pump handler [] w = Translator.finish handler w :=
  (Action.bind_run_ok (Action.forEach_nil _ w)).trans (Translator.unlessCancelled_of_not _ h)

theorem relay_cons_ok
    (hrun : Translator.unlessCancelled (Translator.handle handler message) w = (.ok (), u))
    (messages : List BackendMessage) :
    Translator.relay handler (message :: messages) w = Translator.relay handler messages u := by
  rw [Translator.relay, Action.forEach_cons, hrun]
  rfl

theorem relay_cons_error {e : BuildError}
    (hrun : Translator.unlessCancelled (Translator.handle handler message) w = (.error e, u))
    (messages : List BackendMessage) :
    Translator.relay handler (message :: messages) w = (.error e, u) := by
  rw [Translator.relay, Action.forEach_cons, hrun]

theorem pump_cons_ok (h : w.delivery.cancelled = false)
    (hrun : Translator.handle handler message w = (.ok (), u)) (messages : List BackendMessage) :
    Translator.pump handler (message :: messages) w = Translator.pump handler messages u := by
  rw [Translator.pump, Action.bind_run,
    relay_cons_ok ((Translator.unlessCancelled_of_not _ h).trans hrun)]
  rfl

theorem pump_cons_error {e : BuildError} (h : w.delivery.cancelled = false)
    (hrun : Translator.handle handler message w = (.error e, u)) (messages : List BackendMessage) :
    Translator.pump handler (message :: messages) w = (.error e, u) :=
  Action.bind_run_error
    (relay_cons_error ((Translator.unlessCancelled_of_not _ h).trans hrun) messages)

theorem relay_append {before : List BackendMessage}
    (h : Translator.relay handler before w = (.ok (), u)) (messages : List BackendMessage) :
    Translator.relay handler (before ++ messages) w = Translator.relay handler messages u := by
  unfold Translator.relay at h ⊢
  rw [Action.forEach_append, h]

end Translating

section Feeds

variable {handler : Handler} {feed : Feed} {body : Body} {w u : Working Translator}

theorem taskEnds_after {before : List BackendMessage}
    (h : Translator.relay handler before w = (.ok (), u)) (feed : Feed) :
    taskEnds handler (feed.after before) w = taskEnds handler feed u := by
  unfold taskEnds Feed.after
  dsimp only
  rw [relay_append h]

theorem taskEnds_of_error {e : BuildError}
    (h : Translator.relay handler feed.messages w = (.error e, u)) :
    taskEnds handler feed w = ([.error e], u) := by
  rw [taskEnds, h]

theorem taskEnds_of_ok (h : Translator.relay handler feed.messages w = (.ok (), u))
    (hending : feed.ending = .submitted (.ok ())) :
    let last := Translator.unlessCancelled (Translator.finish handler) u
    taskEnds handler feed w = ([.ok none, last.1.map some], last.2) := by
  rw [taskEnds, h, hending]

theorem taskEnds_of_fault {e : BuildError}
    (h : Translator.relay handler feed.messages w = (.ok (), u))
    (hending : feed.ending = .submitted (.error e)) : taskEnds handler feed w = ([.error e], u) := by
  rw [taskEnds, h, hending]

theorem taskEnds_of_waiting (h : Translator.relay handler feed.messages w = (.ok (), u))
    (hending : feed.ending = .waiting) : taskEnds handler feed w =
      (if u.delivery.cancelled then [.error .cancelled] else [], u) := by
  rw [taskEnds, h, hending]

theorem ending_of_outcome {outcome : Except BuildError Unit}
    (h : body.read.ending.outcome = some outcome) :
    (Feed.ofResponse body).ending = .submitted outcome := by
  have hforward : (forward body false).outcome = some outcome := h
  simp only [Feed.ofResponse, hforward]

theorem ending_of_waiting (h : body.read.ending.outcome = none) :
    (Feed.ofResponse body).ending = .waiting := by
  have hforward : (forward body false).outcome = none := h
  simp only [Feed.ofResponse, hforward]

/-- A run of a build whose response ends well does what the translator does with all messages. -/
theorem taskEnds_of_clean (hclean : body.read.ending = .clean) (w : Working Translator) :
    let whole := Translator.pump handler (body.read.messages.map .response) w
    telling (taskEnds handler (Feed.ofResponse body) w).1 = [whole.1.map some] ∧
      (taskEnds handler (Feed.ofResponse body) w).2 = whole.2 := by
  intro whole
  rcases hrun : Translator.relay handler (Feed.ofResponse body).messages w with ⟨e | _, u⟩
  · have hwhole : whole = (.error e, u) := Action.bind_run_error hrun
    rw [taskEnds_of_error hrun, hwhole]
    exact ⟨rfl, rfl⟩
  · have hwhole : whole = Translator.unlessCancelled (Translator.finish handler) u :=
      Action.bind_run_ok hrun
    have hending : body.read.ending.outcome = some (.ok ()) := by rw [hclean, ReadingEnd.outcome]
    rw [taskEnds_of_ok hrun (ending_of_outcome hending), hwhole]
    exact ⟨telling_translated _, rfl⟩

/-- The daemon takes the build, and its session lasts if there is one. -/
structure Daemon.Answers (daemon : Daemon) (builder : Builder) : Prop where
  refusal : daemon.refusal = none
  session : builder = .buildKit → daemon.sessionFault = none

theorem Daemon.Answers.feed_eq {daemon : Daemon} {builder : Builder} (h : daemon.Answers builder)
    (reportsUpload : Bool) : daemon.feed reportsUpload builder =
      (Feed.ofResponse daemon.response).after (daemon.before reportsUpload builder) := by
  have hreply : daemon.reply = Feed.ofResponse daemon.response := by
    rw [Daemon.reply, h.refusal]
  rw [← hreply]
  cases builder with
  | legacy => rfl
  | buildKit =>
    unfold Daemon.feed
    rw [h.session rfl]

end Feeds

/-- How a submitter that has ended did so. -/
def Submitter.end? : Submitter → Option TaskEnd
  | .ended outcome => some (outcome.map fun _ => none)
  | _ => none

namespace Pipeline

/-- The ends of those tasks that have ended. If both have, the submitter is the first of them. -/
def ends (p : Pipeline) : List TaskEnd :=
  p.submitter.end?.toList ++ (p.outcome.map fun outcome => outcome.map some).toList

variable {handler : Handler} {whole : Except BuildError String × Working Translator}
  {p q : Pipeline}

/-- What is still to be translated comes to `whole`. -/
inductive HeadsFor (handler : Handler) (whole : Except BuildError String × Working Translator)
    (p : Pipeline) : Prop where
  | running (running : p.outcome = none)
      (ahead : Translator.pump handler (p.queue ++ p.submitter.unsent) p.working = whole)
  | ended (ended : p.outcome = some whole.1) (now : p.working = whole.2)

theorem HeadsFor.submits (h : p.HeadsFor handler whole) (hsubmits : p.Submits q) :
    q.HeadsFor handler whole := by
  obtain ⟨hworking, houtcome⟩ := hsubmits.working_eq
  cases h with
  | running running ahead =>
    refine .running (houtcome.trans running) ?_
    rw [hsubmits.unhandled_eq running, hworking]
    exact ahead
  | ended ended now => exact .ended (houtcome.trans ended) (hworking.trans now)

theorem HeadsFor.translates (h : p.HeadsFor handler whole) (htranslates : p.Translates handler q) :
    q.HeadsFor handler whole := by
  cases h with
  | ended ended _ =>
    rw [htranslates.running] at ended
    cases ended
  | running running ahead =>
    cases htranslates with
    | stops _ cancelled =>
      rw [pump_of_cancelled _ _ cancelled] at ahead
      exact ahead ▸ .ended rfl rfl
    | handles _ goesOn queued run =>
      rw [queued, List.cons_append, pump_cons_ok goesOn run] at ahead
      exact .running running ahead
    | fails _ goesOn queued run =>
      rw [queued, List.cons_append, pump_cons_error goesOn run] at ahead
      exact ahead ▸ .ended rfl rfl
    | finishes _ goesOn empty ended =>
      -- Nothing is queued and nothing is unsent.
      rw [empty, ended, Submitter.unsent, List.append_nil, pump_nil goesOn] at ahead
      exact ahead ▸ .ended rfl rfl

theorem HeadsFor.moves (h : p.HeadsFor handler whole) (hmoves : p.Moves handler q) :
    q.HeadsFor handler whole := by
  rcases hmoves.cases with hsubmits | htranslates
  · exact h.submits hsubmits
  · exact h.translates htranslates

/-- In a build whose response ends well every order of turns comes to the same end. -/
theorem HeadsFor.settled (h : p.HeadsFor handler whole) (hfinal : p.IsFinal handler)
    (hroom : 1 ≤ p.capacity) (hends : p.submitter.EndsAs .clean) :
    p.ends = [.ok none, whole.1.map some] ∧ p.working = whole.2 := by
  obtain ⟨hsubmitter, hended⟩ := hfinal.ended hroom hends
  cases h with
  | running running _ => exact absurd running hended
  | ended ended now =>
    rw [ends, hsubmitter, ended]
    exact ⟨rfl, now⟩

theorem unfolds_of_moves (h : Relation.ReflTransGen (Moves handler) p q) : p.Unfolds handler q := by
  induction h with
  | refl => exact .refl
  | tail _ hmoves ih => exact ih.moves hmoves

theorem Reaches.unfolds (h : p.Reaches handler q) : p.Unfolds handler q := by
  induction h with
  | refl => exact .refl
  | step turn _ next ih => exact ih.moves (.turn turn next)

theorem isFinal_of_ended {submitted : Except BuildError Unit} {outcome : Except BuildError String}
    (hsubmitter : p.submitter = .ended submitted) (houtcome : p.outcome = some outcome) :
    p.IsFinal handler := by
  intro turn
  cases turn with
  | submitter => simp only [step, submit, hsubmitter]
  | translator => simp [step, translate, houtcome]

section KeepingUp

/-! ## A translator that keeps up with the submitter -/

variable {capacity : Nat} {message : Message} {messages : List Message} {ending : ReadingEnd}
  {e : BuildError} {w u : Working Translator}

/-- Everything that was sent has been handled, and this is still to be read. -/
def upTo (capacity : Nat) (rest : Reading) (w : Working Translator) : Pipeline :=
  { capacity, submitter := .reading rest, working := w }

theorem reaches_sent (hroom : 1 ≤ capacity) (rest : Reading) (w : Working Translator) :
    (upTo capacity { rest with messages := message :: rest.messages } w).Reaches handler
      { upTo capacity rest w with queue := [.response message] } := by
  let read : Pipeline := { upTo capacity rest w with submitter := .sending message rest }
  have hread : (upTo capacity { rest with messages := message :: rest.messages } w).step handler
      .submitter = some read := rfl
  have hsent : read.step handler .submitter =
      some { upTo capacity rest w with queue := [.response message] } := if_pos hroom
  exact .step .submitter (.step .submitter .refl hread) hsent

/-- What the result of handling a message leaves. -/
def handledWith (capacity : Nat) (rest : Reading) :
    Except BuildError Unit × Working Translator → Pipeline
  | (.ok (), u) => upTo capacity rest u
  | (.error e, u) => (upTo capacity rest u).close (.error e) u

/-- The one message that is queued is handled, unless the build is cancelled. -/
theorem translate_sent (handler : Handler) (capacity : Nat) (message : Message) (rest : Reading)
    (w : Working Translator) :
    translate handler { upTo capacity rest w with queue := [.response message] } =
      some (handledWith capacity rest
        (Translator.unlessCancelled (Translator.handle handler (.response message)) w)) := by
  cases hcancelled : w.delivery.cancelled with
  | true =>
    rw [Translator.unlessCancelled_of_cancelled _ hcancelled]
    simp only [translate, upTo, hcancelled]
    rfl
  | false =>
    rw [Translator.unlessCancelled_of_not _ hcancelled]
    simp only [translate, upTo, hcancelled]
    rcases Translator.handle handler (.response message) w with ⟨_ | _, u⟩ <;> rfl

theorem reaches_handledWith (hroom : 1 ≤ capacity) (rest : Reading)
    {run : Except BuildError Unit × Working Translator}
    (hrun : Translator.unlessCancelled (Translator.handle handler (.response message)) w = run) :
    (upTo capacity { rest with messages := message :: rest.messages } w).Reaches handler
      (handledWith capacity rest run) := by
  apply Reaches.step .translator (reaches_sent hroom rest w)
  exact hrun ▸ translate_sent handler capacity message rest w

theorem reaches_of_relay_ok (hroom : 1 ≤ capacity)
    (hrun : Translator.relay handler (messages.map .response) w = (.ok (), u)) :
    (upTo capacity { messages, ending } w).Reaches handler (upTo capacity { ending } u) := by
  induction messages generalizing w with
  | nil =>
    cases hrun
    exact .refl
  | cons message messages ih =>
    rw [List.map_cons] at hrun
    rcases hfirst : Translator.unlessCancelled (Translator.handle handler (.response message)) w
      with ⟨e | _, v⟩
    · rw [relay_cons_error hfirst] at hrun
      cases hrun
    · rw [relay_cons_ok hfirst] at hrun
      exact (reaches_handledWith hroom { messages, ending } hfirst).trans (ih hrun)

theorem reaches_of_relay_error (hroom : 1 ≤ capacity)
    (hrun : Translator.relay handler (messages.map .response) w = (.error e, u)) :
    ∃ rest, (upTo capacity { messages, ending } w).Reaches handler
      ((upTo capacity rest u).close (.error e) u) := by
  induction messages generalizing w with
  | nil => cases hrun
  | cons message messages ih =>
    rw [List.map_cons] at hrun
    rcases hfirst : Translator.unlessCancelled (Translator.handle handler (.response message)) w
      with ⟨e' | _, v⟩
    · rw [relay_cons_error hfirst] at hrun
      cases hrun
      exact ⟨_, reaches_handledWith hroom { messages, ending } hfirst⟩
    · rw [relay_cons_ok hfirst] at hrun
      obtain ⟨rest, hrest⟩ := ih hrun
      exact ⟨rest, (reaches_handledWith hroom { messages, ending } hfirst).trans hrest⟩

end KeepingUp

/-- No task can go on, and together they have done what a run did that ends in this way. -/
structure Matches (handler : Handler) (run : List TaskEnd × Working Translator) (p : Pipeline) :
    Prop where
  final : p.IsFinal handler
  attended : run.2.Attended p.working
  completes : Completes run.1 p.ends
  waiting : run.1 = [] ↔ p.ends = []

section Endings

variable {capacity : Nat} {ending : ReadingEnd} {u : Working Translator}

theorem isFinal_of_waiting (hwaiting : ending.outcome = none) (h : u.delivery.cancelled = false) :
    (upTo capacity { ending } u).IsFinal handler := by
  intro turn
  cases turn with
  | submitter => simp [step, submit, upTo, Submitter.read, hwaiting]
  | translator => simp [step, translate, upTo, h, isDrained]

theorem step_ended {outcome : Except BuildError Unit} (hending : ending.outcome = some outcome) :
    (upTo capacity { ending } u).step handler .submitter =
      some { upTo capacity { ending } u with submitter := .ended outcome } := by
  simp [step, submit, upTo, Submitter.read, hending]

theorem step_cancelled (hrunning : p.outcome = none)
    (hcancelled : p.working.delivery.cancelled = true) :
    p.step handler .translator = some (p.close (.error .cancelled) p.working) := by
  simp [step, translate, hrunning, hcancelled]

theorem step_left {rest : Reading} (closed : p.outcome.isSome = true)
    (hreading : p.submitter = .reading rest) :
    p.step handler .submitter = some { p with submitter := .ended (.ok ()) } := by
  simp [step, submit, hreading, closed]

/-- The translator of a drained pipeline ends the build, unless it is cancelled. -/
theorem step_finished (handler : Handler) (capacity : Nat) (outcome : Except BuildError Unit)
    (u : Working Translator) :
    let drained : Pipeline := { capacity, submitter := .ended outcome, working := u }
    let last := Translator.unlessCancelled (Translator.finish handler) u
    drained.step handler .translator = some (drained.close last.1 last.2) := by
  intro drained last
  cases hcancelled : u.delivery.cancelled with
  | true =>
    have hlast : last = (.error .cancelled, u) := Translator.unlessCancelled_of_cancelled _ hcancelled
    rw [step_cancelled rfl hcancelled, hlast]
  | false =>
    have hlast : last = Translator.finish handler u := Translator.unlessCancelled_of_not _ hcancelled
    rw [hlast]
    simp [step, translate, drained, hcancelled, isDrained]

variable {body : Body} {w : Working Translator} {e : BuildError}

theorem exists_matches_of_error (hroom : 1 ≤ capacity)
    (hrun : Translator.relay handler (body.read.messages.map .response) w = (.error e, u)) :
    ∃ p, (start capacity body w).Unfolds handler p ∧ p.Matches handler ([.error e], u) := by
  obtain ⟨rest, hreaches⟩ := reaches_of_relay_error hroom hrun
  let failed : Pipeline := (upTo capacity rest u).close (.error e) u
  have hfailed : (start capacity body w).Unfolds handler failed := hreaches.unfolds
  refine ⟨_, hfailed.moves (.turn .submitter (step_left rfl rfl)), ?_⟩
  exact ⟨isFinal_of_ended rfl rfl, .refl u, ⟨[], rfl, .inl rfl⟩, by simp [ends, Submitter.end?]⟩

variable (hroom : 1 ≤ capacity)
  (hrun : Translator.relay handler (body.read.messages.map .response) w = (.ok (), u))
include hroom hrun

theorem unfolds_upTo :
    (start capacity body w).Unfolds handler (upTo capacity { ending := body.read.ending } u) :=
  (reaches_of_relay_ok hroom hrun).unfolds

theorem exists_matches_of_ok (hending : body.read.ending.outcome = some (.ok ())) :
    let last := Translator.unlessCancelled (Translator.finish handler) u
    ∃ p, (start capacity body w).Unfolds handler p ∧
      p.Matches handler ([.ok none, last.1.map some], last.2) := by
  intro last
  have hended := (unfolds_upTo hroom hrun).moves (.turn .submitter (step_ended hending))
  refine ⟨_, hended.moves (.turn .translator (step_finished handler capacity (.ok ()) u)), ?_⟩
  exact ⟨isFinal_of_ended rfl rfl, .refl _, ⟨[], (List.append_nil _).symm, .inl rfl⟩,
    by simp [ends, Submitter.end?, close]⟩

theorem exists_matches_of_fault (hending : body.read.ending.outcome = some (.error e)) :
    ∃ p, (start capacity body w).Unfolds handler p ∧ p.Matches handler ([.error e], u) := by
  have hended := (unfolds_upTo hroom hrun).moves (.turn .submitter (step_ended hending))
  -- The group cancels the translator for the error of the submitter.
  refine ⟨_, hended.cancel.moves (.turn .translator (step_cancelled rfl rfl)), ?_⟩
  exact ⟨isFinal_of_ended rfl rfl, (Attended.refl u).cancel,
    ⟨[.error .cancelled], rfl, .inr ⟨⟨e, List.mem_cons_self⟩, by simp⟩⟩,
    by simp [ends, Submitter.end?, close, cancel]⟩

theorem exists_matches_of_waiting (hending : body.read.ending.outcome = none) :
    ∃ p, (start capacity body w).Unfolds handler p ∧
      p.Matches handler (if u.delivery.cancelled then [.error .cancelled] else [], u) := by
  have hkept := unfolds_upTo hroom hrun
  cases hcancelled : u.delivery.cancelled with
  | true =>
    have hstopped := hkept.moves (.turn .translator (step_cancelled rfl hcancelled))
    refine ⟨_, hstopped.moves (.turn .submitter (step_left rfl rfl)), ?_⟩
    exact ⟨isFinal_of_ended rfl rfl, .refl u, ⟨[], rfl, .inl rfl⟩, by simp [ends, Submitter.end?]⟩
  | false =>
    exact ⟨_, hkept, isFinal_of_waiting hending hcancelled, .refl u, ⟨[], rfl, .inl rfl⟩,
      by simp [ends, Submitter.end?, upTo]⟩

end Endings

/-- A translator that keeps up with the submitter does what a run does. If the response fails, then it
is cancelled for that once everything is handled. -/
theorem exists_matches {capacity : Nat} (hroom : 1 ≤ capacity) (body : Body)
    (w : Working Translator) : ∃ p, (start capacity body w).Unfolds handler p ∧
      p.Matches handler (taskEnds handler (Feed.ofResponse body) w) := by
  rcases hrun : Translator.relay handler (Feed.ofResponse body).messages w with ⟨e | _, u⟩
  · rw [taskEnds_of_error hrun]
    exact exists_matches_of_error hroom hrun
  · rcases hending : body.read.ending.outcome with _ | e | _
    · rw [taskEnds_of_waiting hrun (ending_of_waiting hending)]
      exact exists_matches_of_waiting hroom hrun hending
    · rw [taskEnds_of_fault hrun (ending_of_outcome hending)]
      exact exists_matches_of_fault hroom hrun hending
    · rw [taskEnds_of_ok hrun (ending_of_outcome hending)]
      exact exists_matches_of_ok hroom hrun hending

/-- In a build whose response ends well, every order of turns does what a run does. -/
theorem matches_of_clean {capacity : Nat} {body : Body} {w : Working Translator}
    (hroom : 1 ≤ capacity) (hclean : body.read.ending = .clean)
    (h : Relation.ReflTransGen (Moves handler) (start capacity body w) p)
    (hfinal : p.IsFinal handler) :
    p.Matches handler (taskEnds handler (Feed.ofResponse body) w) ∧
      p.working = (taskEnds handler (Feed.ofResponse body) w).2 := by
  let run := taskEnds handler (Feed.ofResponse body) w
  let whole := Translator.pump handler (body.read.messages.map .response) w
  have hbegun : (start capacity body w).HeadsFor handler whole := .running rfl rfl
  have hheads : p.HeadsFor handler whole := by
    clear hfinal
    induction h with
    | refl => exact hbegun
    | tail _ hmoves ih => exact ih.moves hmoves
  have hfits : (start capacity body w).Fits capacity body.read.ending := ⟨rfl, Nat.zero_le _, rfl⟩
  have hfit := (unfolds_of_moves h).fits hfits
  obtain ⟨hends, hworking⟩ := hheads.settled hfinal (hfit.room.symm ▸ hroom) (hclean ▸ hfit.ends)
  obtain ⟨htelling, hlast⟩ : telling run.1 = [whole.1.map some] ∧ run.2 = whole.2 :=
    taskEnds_of_clean hclean w
  have hsame : p.working = run.2 := hworking.trans hlast.symm
  refine ⟨⟨hfinal, hsame ▸ .refl _, ⟨[], ?_, .inl rfl⟩, ?_⟩, hsame⟩
  · rw [List.append_nil, htelling, hends, telling_translated]
  · constructor
    · intro hnone
      rw [hnone] at htelling
      cases htelling
    · intro hnone
      rw [hends] at hnone
      cases hnone

end Pipeline

/-- The tasks have told the handler and shown what a run told and showed, and a group that sees them
end, among any other tasks that end well, comes to the outcome of the run. -/
structure Pipeline.Settles (p : Pipeline) (run : Run) : Prop where
  told : p.working.delivery.history = run.working.delivery.history
  shown : p.working.transcript = run.working.transcript
  outcome : ∀ moments, telling (endsOf moments) = telling p.ends →
    (.callerCancels ∈ moments ↔ run.working.delivery.cancelled = true) →
    run.outcome = if p.ends = [] then none else some (Watch.after moments).outcome

namespace Setup

variable {s : Setup} {random : RandomBytes} {daemon : Daemon} {handler : Handler}
  {transcript : Option Transcript} {cancelledBefore : Bool} {r : Request}

/-- The outcome of a run is that of a group, whatever order it saw the tasks end in that were
cancelled or had nothing to tell. -/
theorem outcome_build {moments : List Moment} :
    let run := s.build random daemon handler transcript cancelledBefore r
    let ends := (taskEnds handler (daemon.feed s.settings.reportsUpload (s.builderOf r))
      (s.start transcript cancelledBefore r)).1
    Completes ends (endsOf moments) →
    (.callerCancels ∈ moments ↔ run.working.delivery.cancelled = true) →
    run.outcome = if ends = [] then none else some (Watch.after moments).outcome := by
  intro run ends hcompletes hcaller
  have hsame : (Watch.after moments).callerCancelled = run.working.delivery.cancelled :=
    Bool.eq_iff_iff.2 ((Watch.callerCancelled_after moments).trans hcaller)
  have houtcome : (Watch.after moments).outcome =
      (Group.ofEnds ends).outcome run.working.delivery.cancelled := by
    rw [Watch.outcome, Watch.group_after, hsame, Group.outcome_of_completes hcompletes]
  rw [houtcome]
  have hrun : run.outcome = if ends.isEmpty then none
    else some ((Group.ofEnds ends).outcome run.working.delivery.cancelled) := rfl
  rw [hrun]
  cases ends <;> rfl

section Settling

variable {w : Working Translator} (hanswers : daemon.Answers (s.builderOf r))
  (hbefore : Translator.relay handler (daemon.before s.settings.reportsUpload (s.builderOf r))
    (s.start transcript cancelledBefore r) = (.ok (), w))
include hanswers hbefore

/-- What is sent before the response is translated in any case before the tasks take turns. -/
theorem taskEnds_eq :
    taskEnds handler (daemon.feed s.settings.reportsUpload (s.builderOf r))
      (s.start transcript cancelledBefore r) =
    taskEnds handler (Feed.ofResponse daemon.response) w := by
  rw [hanswers.feed_eq, taskEnds_after hbefore]

theorem settles_of_matches {p : Pipeline}
    (h : p.Matches handler (taskEnds handler (Feed.ofResponse daemon.response) w)) :
    p.Settles (s.build random daemon handler transcript cancelledBefore r) := by
  let run := s.build random daemon handler transcript cancelledBefore r
  rw [← taskEnds_eq hanswers hbefore] at h
  have hattended : run.working.Attended p.working := h.attended
  refine ⟨hattended.history, hattended.transcript, fun moments hmoments hcaller => ?_⟩
  obtain ⟨left, hleft, hrest⟩ := h.completes
  have houtcome : run.outcome = _ := outcome_build ⟨left, hmoments.trans hleft, hrest⟩ hcaller
  rw [houtcome]
  simp only [h.waiting]

/-- A build that a daemon answers does what its tasks do, once they take turns in the order in which
the translator keeps up with the submitter. If the response ends well, then it does what they do in any
order, with any room in the queue, when neither of them can go on. -/
theorem build_settled (hroom : 1 ≤ s.settings.bufferSize) :
    let run := s.build random daemon handler transcript cancelledBefore r
    let begun := Pipeline.start s.settings.bufferSize daemon.response w
    (∃ p, begun.Unfolds handler p ∧ p.IsFinal handler ∧ p.Settles run) ∧
    (daemon.response.read.ending = .clean → ∀ p,
      Relation.ReflTransGen (Pipeline.Moves handler) begun p → p.IsFinal handler →
        p.Settles run ∧ p.working = run.working) := by
  intro run begun
  constructor
  · obtain ⟨p, hunfolds, hmatches⟩ := Pipeline.exists_matches hroom daemon.response w
    exact ⟨p, hunfolds, hmatches.final, settles_of_matches hanswers hbefore hmatches⟩
  · intro hclean p hmoves hfinal
    obtain ⟨hmatches, hworking⟩ := Pipeline.matches_of_clean hroom hclean hmoves hfinal
    rw [← taskEnds_eq hanswers hbefore] at hworking
    exact ⟨settles_of_matches hanswers hbefore hmatches, hworking⟩

/-- A session may start a step before there is a response. -/
example :
    let begun : Vertex := { digest := "d", name := "a", started := some ⟨1, 0⟩ }
    let daemon : Daemon := { batches := [{ vertices := [begun] }] }
    let s : Setup := { settings := { builder := .buildKit } }
    let run := Translator.relay .quiet (daemon.before s.settings.reportsUpload .buildKit)
      (s.start none false { context := "/", dockerfile := "/Dockerfile" })
    daemon.Answers .buildKit ∧ run.1 = .ok () ∧
      run.2.delivery.history = [.stepStarting 1 "a"] :=
  ⟨⟨rfl, fun _ => rfl⟩, rfl, by decide⟩

end Settling

end Setup

end BuildProgress.Build
