import BuildProgress.Build.Pipeline
import BuildProgress.Proofs.Translator.Cancel
import BuildProgress.Proofs.Translator.Outcome

/-!
# Every interleaving of a build comes to the same

The submitter and the translator share nothing but the queue between them. As long as the translator
runs, the messages that it has not handled are those in the queue, then the one that the submitter
holds, then those that it has not read; every turn keeps this, and nothing else is ever handled. So
the order of the turns and the room in the queue decide only when a message is handled.
-/

namespace BuildProgress.Build

set_option autoImplicit false

open Working

namespace Submitter

/-- What a submitter has read and not sent, and what it has not read. -/
def unsent : Submitter → List BackendMessage
  | .reading rest => rest.messages.map .response
  | .sending message rest => .response message :: rest.messages.map .response
  | .ended _ => []

/-- The submitter of a body that ends this way. It has ended well, or as the body does. -/
def EndsAs (ending : ReadingEnd) : Submitter → Prop
  | .reading rest => rest.ending = ending
  | .sending _ rest => rest.ending = ending
  | .ended outcome => outcome = .ok () ∨ ending.outcome = some outcome

/-- The turns that are still to come for what a submitter has not sent, those of the translator
included. -/
def effort : Submitter → Nat
  | .reading rest => 3 * rest.messages.length + 1
  | .sending _ rest => 3 * rest.messages.length + 3
  | .ended _ => 0

variable {rest : Reading} {next : Submitter} {ending : ReadingEnd}

theorem read_cases (h : read rest = some next) :
    (∃ message later, rest.messages = message :: later ∧
      next = .sending message { rest with messages := later }) ∨
    ∃ outcome, rest.messages = [] ∧ rest.ending.outcome = some outcome ∧ next = .ended outcome := by
  unfold read at h
  split at h
  case h_1 message later hmessages =>
    exact Or.inl ⟨message, later, hmessages, (Option.some.inj h).symm⟩
  case h_2 hmessages =>
    obtain ⟨outcome, houtcome, rfl⟩ := Option.map_eq_some_iff.mp h
    exact Or.inr ⟨outcome, hmessages, houtcome, rfl⟩

theorem unsent_read (h : read rest = some next) : next.unsent = (reading rest).unsent := by
  rcases read_cases h with ⟨message, later, hmessages, rfl⟩ | ⟨outcome, hmessages, _, rfl⟩
  · simp [unsent, hmessages]
  · simp [unsent, hmessages]

theorem effort_read (h : read rest = some next) : next.effort < (reading rest).effort := by
  rcases read_cases h with ⟨message, later, hmessages, rfl⟩ | ⟨outcome, hmessages, _, rfl⟩
  · simp only [effort, hmessages, List.length_cons]
    omega
  · simp [effort]

theorem EndsAs.read (hends : (reading rest).EndsAs ending) (h : read rest = some next) :
    next.EndsAs ending := by
  rcases read_cases h with ⟨message, later, _, rfl⟩ | ⟨outcome, _, houtcome, rfl⟩
  · exact hends
  · have hending : rest.ending = ending := hends
    exact Or.inr (hending ▸ houtcome)

theorem EndsAs.outcome_eq_ok {outcome : Except BuildError Unit}
    (hends : (ended outcome).EndsAs .clean) : outcome = .ok () := by
  rcases hends with rfl | houtcome
  · rfl
  · exact (Option.some.inj houtcome).symm

theorem read_clean (rest : Reading) (hclean : rest.ending = .clean) : read rest ≠ none := by
  unfold read
  split
  · exact Option.some_ne_none _
  · simp [hclean, ReadingEnd.outcome]

theorem effort_pos {s : Submitter} (h : ∀ outcome, s ≠ .ended outcome) : 0 < s.effort := by
  cases s with
  | reading rest => exact Nat.succ_pos _
  | sending message rest => exact Nat.succ_pos _
  | ended outcome => exact absurd rfl (h outcome)

end Submitter

namespace Pipeline

variable {handler : Handler} {p q r : Pipeline}

/-- The submitter reads on without looking whether the queue is closed: it has looked before the
translator closed it. -/
def readOn (p : Pipeline) : Option Pipeline :=
  match p.submitter with
  | .reading rest => (Submitter.read rest).map fun next => { p with submitter := next }
  | _ => none

/-- The caller cancels the build from elsewhere. -/
def cancel (p : Pipeline) : Pipeline :=
  { p with working := p.working.cancel }

/-- What one of the two tasks does at a time. -/
inductive Moves (handler : Handler) (p q : Pipeline) : Prop where
  | turn (turn : Turn) (next : p.step handler turn = some q)
  | readOn (next : p.readOn = some q)

/-- What a pipeline comes to in any order of turns, while the caller may cancel the build at any
moment. -/
inductive Unfolds (handler : Handler) (p : Pipeline) : Pipeline → Prop where
  | refl : Unfolds handler p p
  | moves {q r : Pipeline} (before : Unfolds handler p q) (next : q.Moves handler r) :
      Unfolds handler p r
  | cancel {q : Pipeline} (before : Unfolds handler p q) : Unfolds handler p q.cancel

/-- What the submitter can do, one case for each. -/
inductive Submits (p : Pipeline) : Pipeline → Prop where
  | leaves (closed : p.outcome.isSome) (running : ∀ outcome, p.submitter ≠ .ended outcome) :
      Submits p { p with submitter := .ended (.ok ()) }
  | reads {rest : Reading} {next : Submitter} (reading : p.submitter = .reading rest)
      (read : Submitter.read rest = some next) : Submits p { p with submitter := next }
  | sends {message : Message} {rest : Reading} (sending : p.submitter = .sending message rest)
      (room : p.queue.length < p.capacity) :
      Submits p { p with queue := p.queue ++ [.response message], submitter := .reading rest }

/-- What the translator can do, one case for each. -/
inductive Translates (handler : Handler) (p : Pipeline) : Pipeline → Prop where
  | stops (running : p.outcome = none) (cancelled : p.working.delivery.cancelled = true) :
      Translates handler p (p.close (.error .cancelled) p.working)
  | handles {message : BackendMessage} {rest : List BackendMessage} {w : Working Translator}
      (running : p.outcome = none) (goesOn : p.working.delivery.cancelled = false)
      (queued : p.queue = message :: rest)
      (run : Translator.handle handler message p.working = (.ok (), w)) :
      Translates handler p { p with queue := rest, working := w }
  | fails {message : BackendMessage} {rest : List BackendMessage} {e : BuildError}
      {w : Working Translator} (running : p.outcome = none)
      (goesOn : p.working.delivery.cancelled = false) (queued : p.queue = message :: rest)
      (run : Translator.handle handler message p.working = (.error e, w)) :
      Translates handler p (p.close (.error e) w)
  | finishes {outcome : Except BuildError Unit} (running : p.outcome = none)
      (goesOn : p.working.delivery.cancelled = false) (empty : p.queue = [])
      (ended : p.submitter = .ended outcome) :
      Translates handler p (p.close (Translator.finish handler p.working).1
        (Translator.finish handler p.working).2)

theorem submits_of_readOn (h : p.readOn = some q) : p.Submits q := by
  unfold readOn at h
  split at h
  case h_1 rest hreading =>
    obtain ⟨next, hread, rfl⟩ := Option.map_eq_some_iff.mp h
    exact .reads hreading hread
  case h_2 => cases h

theorem submits_of_submit (h : p.submit = some q) : p.Submits q := by
  unfold submit at h
  split at h
  case h_1 => cases h
  case h_2 rest hreading =>
    split at h
    case isTrue hclosed =>
      obtain rfl := Option.some.inj h
      exact .leaves hclosed (by simp [hreading])
    case isFalse =>
      obtain ⟨next, hread, rfl⟩ := Option.map_eq_some_iff.mp h
      exact .reads hreading hread
  case h_3 message rest hsending =>
    split at h
    case isTrue hclosed =>
      obtain rfl := Option.some.inj h
      exact .leaves hclosed (by simp [hsending])
    case isFalse =>
      split at h
      case isTrue hroom =>
        obtain rfl := Option.some.inj h
        exact .sends hsending hroom
      case isFalse => cases h

theorem ended_of_isDrained (h : p.isDrained = true) : ∃ outcome, p.submitter = .ended outcome := by
  unfold isDrained at h
  cases hsubmitter : p.submitter with
  | ended outcome => exact ⟨outcome, rfl⟩
  | reading rest => simp [hsubmitter] at h
  | sending message rest => simp [hsubmitter] at h

theorem translates_of_translate (h : p.translate handler = some q) : p.Translates handler q := by
  unfold translate at h
  split at h
  case isTrue => cases h
  case isFalse hopen =>
    have hrunning : p.outcome = none := by simpa using hopen
    split at h
    case isTrue hcancelled =>
      obtain rfl := Option.some.inj h
      exact .stops hrunning hcancelled
    case isFalse hnot =>
      have hgoes : p.working.delivery.cancelled = false := by simpa using hnot
      split at h
      case h_1 message rest hqueue =>
        split at h
        case h_1 w hrun =>
          obtain rfl := Option.some.inj h
          exact .handles hrunning hgoes hqueue hrun
        case h_2 e w hrun =>
          obtain rfl := Option.some.inj h
          exact .fails hrunning hgoes hqueue hrun
      case h_2 hqueue =>
        split at h
        case isTrue hdrained =>
          obtain ⟨outcome, hended⟩ := ended_of_isDrained hdrained
          obtain rfl := Option.some.inj h
          exact .finishes hrunning hgoes hqueue hended
        case isFalse => cases h

theorem Moves.cases (h : p.Moves handler q) : p.Submits q ∨ p.Translates handler q := by
  cases h with
  | turn turn next =>
    cases turn with
    | submitter => exact Or.inl (submits_of_submit next)
    | translator => exact Or.inr (translates_of_translate next)
  | readOn next => exact Or.inl (submits_of_readOn next)

/-! ## Every run ends -/

/-- The turns that a run has left, if nothing fails and nobody cancels. -/
def effort (p : Pipeline) : Nat :=
  p.submitter.effort + p.queue.length + if p.outcome.isSome then 0 else 1

theorem effort_close_lt (running : p.outcome = none) (outcome : Except BuildError String)
    (w : Working Translator) : (p.close outcome w).effort < p.effort := by
  simp only [effort, close, running, Option.isSome_some, Option.isSome_none, List.length_nil]
  simp only [reduceIte, Bool.false_eq_true]
  omega

theorem Submits.effort_lt (h : p.Submits q) : q.effort < p.effort := by
  cases h with
  | leaves _ running =>
    have hpos := Submitter.effort_pos running
    have hnone : Submitter.effort (.ended (.ok ())) = 0 := rfl
    simp only [effort, hnone]
    omega
  | reads reading read =>
    have hless := Submitter.effort_read read
    simp only [effort, reading]
    omega
  | sends sending _ =>
    simp only [effort, sending, Submitter.effort, List.length_append, List.length_singleton]
    omega

theorem Translates.effort_lt (h : p.Translates handler q) : q.effort < p.effort := by
  cases h with
  | stops running _ => exact effort_close_lt running _ _
  | handles _ _ queued _ =>
    simp only [effort, queued, List.length_cons]
    omega
  | fails running _ _ _ => exact effort_close_lt running _ _
  | finishes running _ _ _ => exact effort_close_lt running _ _

theorem moves_wellFounded (handler : Handler) :
    WellFounded fun q p : Pipeline => p.Moves handler q := by
  apply Subrelation.wf _ (measure effort).wf
  intro q p h
  rcases h.cases with hsubmits | htranslates
  · exact hsubmits.effort_lt
  · exact htranslates.effort_lt

theorem Reaches.trans (h : p.Reaches handler q) (hrest : q.Reaches handler r) :
    p.Reaches handler r := by
  induction hrest with
  | refl => exact h
  | step turn _ next ih => exact .step turn ih next

theorem exists_isFinal (handler : Handler) (p : Pipeline) :
    ∃ q, p.Reaches handler q ∧ q.IsFinal handler := by
  induction p using (moves_wellFounded handler).induction with
  | _ p ih =>
    by_cases hfinal : p.IsFinal handler
    · exact ⟨p, .refl, hfinal⟩
    · obtain ⟨turn, hturn⟩ := not_forall.mp hfinal
      obtain ⟨next, hnext⟩ := Option.ne_none_iff_exists'.mp hturn
      obtain ⟨last, hreaches, hlast⟩ := ih next (.turn turn hnext)
      have hstep : p.Reaches handler next := .step turn .refl hnext
      exact ⟨last, hstep.trans hreaches, hlast⟩

section Progress

/-! ## What has been handled -/

/-- How far the translator has come with the messages of a body, which it handles from `start`. -/
inductive Progress (handler : Handler) (messages : List BackendMessage) (start : Working Translator)
    (p : Pipeline) : Prop where
  | working (handled : List BackendMessage) (w : Working Translator)
      (split : messages = handled ++ (p.queue ++ p.submitter.unsent))
      (run : Action.forEach (Translator.handle handler) handled start = (.ok (), w))
      (now : w.Attended p.working) (running : p.outcome = none)
  | cancelled (handled later : List BackendMessage) (w : Working Translator)
      (split : messages = handled ++ later)
      (run : Action.forEach (Translator.handle handler) handled start = (.ok (), w))
      (now : w.Attended p.working) (ended : p.outcome = some (.error .cancelled))
      (cancelled : p.working.delivery.cancelled = true)
  | failed (handled later : List BackendMessage) (e : BuildError) (w : Working Translator)
      (split : messages = handled ++ later)
      (run : Action.forEach (Translator.handle handler) handled start = (.error e, w))
      (now : w.Attended p.working) (ended : p.outcome = some (.error e))
  | finished (outcome : Except BuildError String) (w : Working Translator)
      (run : (Action.forEach (Translator.handle handler) messages >>= fun _ =>
        Translator.finish handler) start = (outcome, w))
      (now : w.Attended p.working) (ended : p.outcome = some outcome)

variable {messages : List BackendMessage} {start : Working Translator}

theorem Submits.working_eq (h : p.Submits q) : q.working = p.working ∧ q.outcome = p.outcome := by
  cases h <;> exact ⟨rfl, rfl⟩

/-- A message that is sent goes to the end of the queue. -/
theorem Submits.unhandled_eq (h : p.Submits q) (running : p.outcome = none) :
    q.queue ++ q.submitter.unsent = p.queue ++ p.submitter.unsent := by
  cases h with
  | leaves closed _ => simp [running] at closed
  | reads reading read => rw [reading, Submitter.unsent_read read]
  | sends sending _ =>
    rw [sending]
    exact List.append_assoc _ _ _

theorem Progress.submits (h : p.Progress handler messages start) (hsubmits : p.Submits q) :
    q.Progress handler messages start := by
  obtain ⟨hworking, houtcome⟩ := hsubmits.working_eq
  cases h with
  | working handled w split run now running =>
    rw [← hsubmits.unhandled_eq running] at split
    exact .working handled w split run (hworking ▸ now) (houtcome.trans running)
  | cancelled handled later w split run now ended cancelled =>
    exact .cancelled handled later w split run (hworking ▸ now) (houtcome.trans ended)
      (hworking ▸ cancelled)
  | failed handled later e w split run now ended =>
    exact .failed handled later e w split run (hworking ▸ now) (houtcome.trans ended)
  | finished outcome w run now ended =>
    exact .finished outcome w run (hworking ▸ now) (houtcome.trans ended)

theorem Translates.running (h : p.Translates handler q) : p.outcome = none := by
  cases h with
  | stops running _ => exact running
  | handles running _ _ _ => exact running
  | fails running _ _ _ => exact running
  | finishes running _ _ _ => exact running

theorem Progress.of_running (h : p.Progress handler messages start) (running : p.outcome = none) :
    ∃ handled w, messages = handled ++ (p.queue ++ p.submitter.unsent) ∧
      Action.forEach (Translator.handle handler) handled start = (.ok (), w) ∧
      w.Attended p.working := by
  cases h with
  | working handled w split run now _ => exact ⟨handled, w, split, run, now⟩
  | cancelled _ _ _ _ _ _ ended _ => exact absurd running (by simp [ended])
  | failed _ _ _ _ _ _ _ ended => exact absurd running (by simp [ended])
  | finished _ _ _ _ ended => exact absurd running (by simp [ended])

theorem Progress.translates (h : p.Progress handler messages start)
    (htranslates : p.Translates handler q) : q.Progress handler messages start := by
  obtain ⟨handled, w, split, run, now⟩ := h.of_running htranslates.running
  cases htranslates with
  | stops _ cancelled => exact .cancelled handled _ w split run now rfl cancelled
  | @handles message rest after running _ queued next =>
    obtain ⟨t, hnext, hafter⟩ := now.run (Translator.handle_scripted message) next
    have hrun := (Action.forEach_concat run message).trans hnext
    exact .working (handled ++ [message]) t (by simp [split, queued]) hrun hafter running
  | @fails message rest e after _ _ queued next =>
    obtain ⟨t, hnext, hafter⟩ := now.run (Translator.handle_scripted message) next
    have hrun := (Action.forEach_concat run message).trans hnext
    exact .failed (handled ++ [message]) (rest ++ p.submitter.unsent) e t (by simp [split, queued])
      hrun hafter rfl
  | finishes _ _ empty ended =>
    -- Nothing is queued and nothing is unsent, so that every message is handled.
    have hall : handled = messages := by simp [split, empty, ended, Submitter.unsent]
    obtain ⟨t, hfinish, hafter⟩ := now.run Translator.finish_scripted rfl
    exact .finished _ t (hall ▸ (Action.bind_run_ok run).trans hfinish) hafter rfl

theorem Progress.cancel (h : p.Progress handler messages start) :
    p.cancel.Progress handler messages start := by
  cases h with
  | working handled w split run now running =>
    exact .working handled w split run now.cancel running
  | cancelled handled later w split run now ended _ =>
    exact .cancelled handled later w split run now.cancel ended rfl
  | failed handled later e w split run now ended =>
    exact .failed handled later e w split run now.cancel ended
  | finished outcome w run now ended => exact .finished outcome w run now.cancel ended

/-- What the handler was told is what the messages tell that have been handled, and the end tells if
it was reached. -/
theorem Progress.told (h : p.Progress handler messages start) :
    ∃ handled later, messages = handled ++ later ∧
      (p.outcome = none → later = p.queue ++ p.submitter.unsent ∧
        (Action.forEach (Translator.handle handler) handled start).1 = .ok ()) ∧
      (p.working.delivery.history =
          (Action.forEach (Translator.handle handler) handled start).2.delivery.history ∨
        later = [] ∧ p.outcome ≠ none ∧ p.working.delivery.history =
          ((Action.forEach (Translator.handle handler) messages >>= fun _ =>
            Translator.finish handler) start).2.delivery.history) := by
  cases h with
  | working handled w split run now running =>
    refine ⟨handled, _, split, fun _ => ⟨rfl, congrArg Prod.fst run⟩, Or.inl ?_⟩
    rw [now.history, run]
  | cancelled handled later w split run now ended _ =>
    refine ⟨handled, later, split, fun running => absurd running (by simp [ended]), Or.inl ?_⟩
    rw [now.history, run]
  | failed handled later e w split run now ended =>
    refine ⟨handled, later, split, fun running => absurd running (by simp [ended]), Or.inl ?_⟩
    rw [now.history, run]
  | finished outcome w run now ended =>
    refine ⟨messages, [], (List.append_nil _).symm, fun running => absurd running (by simp [ended]),
      Or.inr ⟨rfl, by simp [ended], ?_⟩⟩
    rw [now.history, run]

/-- Without a cancellation, what has come out at the end is what handling all messages one after the
other comes to. -/
theorem Progress.settled (h : p.Progress handler messages start) (ended : p.outcome ≠ none)
    (hopen : p.working.delivery.cancelled = false) :
    let whole := (Action.forEach (Translator.handle handler) messages >>= fun _ =>
      Translator.finish handler) start
    p.outcome = some whole.1 ∧ p.working = whole.2 := by
  intro whole
  cases h with
  | working _ _ _ _ _ running => exact absurd running ended
  | cancelled _ _ _ _ _ _ _ cancelled =>
    rw [hopen] at cancelled
    cases cancelled
  | failed handled later e w split run now outcome =>
    have hrun : Action.forEach (Translator.handle handler) messages start = (.error e, w) := by
      rw [split, Action.forEach_append, run]
    have hwhole : whole = (.error e, w) := Action.bind_run_error hrun
    rw [hwhole]
    exact ⟨outcome, now.eq_of_not_cancelled hopen⟩
  | finished result w run now outcome =>
    have hwhole : whole = (result, w) := run
    rw [hwhole]
    exact ⟨outcome, now.eq_of_not_cancelled hopen⟩

end Progress

/-- What every turn and every cancellation keeps, a pipeline keeps while it unfolds. -/
theorem Unfolds.keeps {P : Pipeline → Prop} (hsubmits : ∀ {q r}, P q → q.Submits r → P r)
    (htranslates : ∀ {q r}, P q → q.Translates handler r → P r) (hcancel : ∀ {q}, P q → P q.cancel)
    (h : p.Unfolds handler q) (hp : P p) : P q := by
  induction h with
  | refl => exact hp
  | moves _ next ih =>
    rcases next.cases with hnext | hnext
    · exact hsubmits ih hnext
    · exact htranslates ih hnext
  | cancel _ ih => exact hcancel ih

theorem Unfolds.progress {messages : List BackendMessage} {start : Working Translator}
    (h : p.Unfolds handler q) (hp : p.Progress handler messages start) :
    q.Progress handler messages start :=
  h.keeps Progress.submits Progress.translates Progress.cancel hp

/-- A pipeline with a queue of this capacity and a body that ends this way. -/
structure Fits (capacity : Nat) (ending : ReadingEnd) (p : Pipeline) : Prop where
  room : p.capacity = capacity
  bounded : p.queue.length ≤ capacity
  ends : p.submitter.EndsAs ending

section Fits

variable {capacity : Nat} {ending : ReadingEnd}

theorem Fits.submits (h : p.Fits capacity ending) (hsubmits : p.Submits q) :
    q.Fits capacity ending := by
  have hends := h.ends
  cases hsubmits with
  | leaves _ _ => exact ⟨h.room, h.bounded, Or.inl rfl⟩
  | reads reading read =>
    rw [reading] at hends
    exact ⟨h.room, h.bounded, hends.read read⟩
  | sends sending room =>
    rw [sending] at hends
    refine ⟨h.room, ?_, hends⟩
    rw [List.length_append, ← h.room]
    exact room

theorem Fits.translates (h : p.Fits capacity ending) (htranslates : p.Translates handler q) :
    q.Fits capacity ending := by
  cases htranslates with
  | handles _ _ queued _ =>
    have hbounded := h.bounded
    rw [queued] at hbounded
    exact ⟨h.room, Nat.le_of_succ_le hbounded, h.ends⟩
  | stops _ _ => exact ⟨h.room, Nat.zero_le _, h.ends⟩
  | fails _ _ _ _ => exact ⟨h.room, Nat.zero_le _, h.ends⟩
  | finishes _ _ _ _ => exact ⟨h.room, Nat.zero_le _, h.ends⟩

theorem Unfolds.fits (h : p.Unfolds handler q) (hp : p.Fits capacity ending) :
    q.Fits capacity ending :=
  h.keeps Fits.submits Fits.translates (fun hq => ⟨hq.room, hq.bounded, hq.ends⟩) hp

end Fits

/-! ## Where a run ends -/

/-- The translator waits only while the queue is empty and the submitter has not ended. -/
theorem translate_ne_none (running : p.outcome = none)
    (h : p.queue ≠ [] ∨ ∃ outcome, p.submitter = .ended outcome) :
    p.translate handler ≠ none := by
  unfold translate
  rw [if_neg (by simp [running])]
  split
  · exact Option.some_ne_none _
  · split
    · split <;> exact Option.some_ne_none _
    · next hempty =>
      obtain ⟨outcome, hended⟩ := h.resolve_left (fun hqueue => hqueue hempty)
      rw [if_pos (by simp [isDrained, hempty, hended])]
      exact Option.some_ne_none _

/-- Neither task waits for ever: a queue that has room at all never blocks both of them. -/
theorem IsFinal.ended (hfinal : p.IsFinal handler) (hroom : 1 ≤ p.capacity)
    (hends : p.submitter.EndsAs .clean) :
    p.submitter = .ended (.ok ()) ∧ p.outcome ≠ none := by
  have hsubmit : p.submit = none := hfinal .submitter
  have htranslate : p.translate handler = none := hfinal .translator
  unfold submit at hsubmit
  cases hsubmitter : p.submitter with
  | ended outcome =>
    rw [hsubmitter] at hends
    refine ⟨hends.outcome_eq_ok ▸ rfl, fun running => ?_⟩
    exact translate_ne_none running (Or.inr ⟨outcome, hsubmitter⟩) htranslate
  | reading rest =>
    rw [hsubmitter] at hsubmit hends
    exfalso
    dsimp only at hsubmit
    split at hsubmit
    · cases hsubmit
    · exact Submitter.read_clean rest hends (Option.map_eq_none_iff.mp hsubmit)
  | sending message rest =>
    rw [hsubmitter] at hsubmit
    exfalso
    dsimp only at hsubmit
    split at hsubmit
    · cases hsubmit
    · next hopen =>
      split at hsubmit
      · cases hsubmit
      · next hfull =>
        have hqueue : p.queue ≠ [] := by
          intro hempty
          rw [hempty] at hfull
          exact hfull hroom
        exact translate_ne_none (by simpa using hopen) (Or.inl hqueue) htranslate

/-- Only the handler and the caller cancel a build. -/
theorem Moves.not_cancelled (h : p.Moves handler q) (hnever : handler.NeverCancels)
    (hopen : p.working.delivery.cancelled = false) : q.working.delivery.cancelled = false := by
  have hkeeps {α : Type} {act : Handler → Act Translator α} (hact : Scripted assemble act) :
      (act handler p.working).2.delivery.cancelled = false :=
    hact.heeds.keeps handler (·.cancelled = false)
      (fun event _ hd => Delivery.emit_not_cancelled hnever event hd) p.working hopen
  rcases h.cases with hsubmits | htranslates
  · rw [hsubmits.working_eq.1]
    exact hopen
  · cases htranslates with
    | stops _ _ => exact hopen
    | @handles message _ _ _ _ _ run =>
      have hafter := hkeeps (Translator.handle_scripted message)
      rw [run] at hafter
      exact hafter
    | @fails message _ _ _ _ _ _ run =>
      have hafter := hkeeps (Translator.handle_scripted message)
      rw [run] at hafter
      exact hafter
    | finishes _ _ _ _ => exact hkeeps Translator.finish_scripted

end Pipeline

open Pipeline

/-- A build in which submitter and translator take turns in any order, with any room in the queue,
while the caller may cancel it at any moment.

The messages that have been handled are always the first ones of the body, each handled once and in
order, and those that follow wait in the queue or with the submitter; what the handler was told is
what these messages tell, or, once all are handled, what they and the end tell. Every run ends. If
the body ends well, then the submitter ends well, and unless somebody cancels, the translator ends
with what it makes of all messages one after the other, up to the first that fails: the same for
every run and every capacity. -/
theorem interleavings_agree (handler : Handler) (body : Body) (start : Working Translator)
    (capacity : Nat) :
    let messages := body.read.messages.map BackendMessage.response
    let whole := (Action.forEach (Translator.handle handler) messages >>= fun _ =>
      Translator.finish handler) start
    let begun := Pipeline.start capacity body start
    (∀ p, begun.Unfolds handler p → p.queue.length ≤ capacity ∧
      ∃ handled later, messages = handled ++ later ∧
        (p.outcome = none → later = p.queue ++ p.submitter.unsent ∧
          (Action.forEach (Translator.handle handler) handled start).1 = .ok ()) ∧
        (p.working.delivery.history =
            (Action.forEach (Translator.handle handler) handled start).2.delivery.history ∨
          later = [] ∧ p.outcome ≠ none ∧
            p.working.delivery.history = whole.2.delivery.history)) ∧
    (WellFounded fun q p : Pipeline => p.Moves handler q) ∧
    (∀ p : Pipeline, ∃ last : Pipeline, p.Reaches handler last ∧ last.IsFinal handler) ∧
    (body.read.ending = .clean → 1 ≤ capacity → ∀ p, begun.Unfolds handler p →
      (∀ outcome, p.submitter = .ended outcome → outcome = .ok ()) ∧
      (p.IsFinal handler → p.submitter = .ended (.ok ()) ∧ p.outcome ≠ none ∧
        (p.working.delivery.cancelled = false →
          p.outcome = some whole.1 ∧ p.working = whole.2))) ∧
    (handler.NeverCancels → ∀ p q : Pipeline, p.Moves handler q →
      p.working.delivery.cancelled = false → q.working.delivery.cancelled = false) := by
  intro messages whole begun
  have hprogress : begun.Progress handler messages start :=
    .working [] start rfl (Action.forEach_nil _ start) (.refl start) rfl
  have hfits : begun.Fits capacity body.read.ending := ⟨rfl, Nat.zero_le _, rfl⟩
  refine ⟨?_, moves_wellFounded handler, exists_isFinal handler, ?_, ?_⟩
  · exact fun p hp => ⟨(hp.fits hfits).bounded, (hp.progress hprogress).told⟩
  · intro hclean hroom p hp
    have hfit := hp.fits hfits
    have hends := hfit.ends
    rw [hclean] at hends
    constructor
    · intro outcome hended
      rw [hended] at hends
      exact hends.outcome_eq_ok
    · intro hfinal
      obtain ⟨hsubmitter, hended⟩ := hfinal.ended (hfit.room.symm ▸ hroom) hends
      exact ⟨hsubmitter, hended, (hp.progress hprogress).settled hended⟩
  · exact fun hnever p q hmoves hopen => hmoves.not_cancelled hnever hopen

/-- The first of two messages fails. -/
def failingFirst : Body :=
  ⟨[0x7B, 0x22, 0x65, 0x72, 0x72, 0x6F, 0x72, 0x22, 0x3A, 0x22, 0x62, 0x22, 0x7D, 0x0A, 0x7B, 0x7D],
    .complete⟩

/-- The first message fails while the submitter waits with the second one for room in the queue. -/
theorem interleavings_agree_while_full :
    let begun := Pipeline.start 1 failingFirst { translator := .start .legacy }
    ∃ full last, begun.Unfolds .quiet full ∧ full.submit = none ∧ full.outcome = none ∧
      begun.Unfolds .quiet last ∧ last.IsFinal .quiet ∧ last.submitter = .ended (.ok ()) ∧
      last.outcome = some (.error (.buildFailed "b")) ∧
      last.working.delivery.history = [.buildFailed "b"] := by
  intro begun
  let start : Working Translator := { translator := .start .legacy }
  let failing : Message := { errorText := "b" }
  let read : Pipeline := { begun with submitter := .sending failing { messages := [{}] } }
  let sent : Pipeline :=
    { begun with queue := [.response failing], submitter := .reading { messages := [{}] } }
  let full : Pipeline := { sent with submitter := .sending {} {} }
  let failed := full.close (.error (.buildFailed "b"))
    (Translator.handle .quiet (.response failing) start).2
  let last : Pipeline := { failed with submitter := .ended (.ok ()) }
  have hread : begun.Unfolds .quiet read := .moves .refl (.turn .submitter rfl)
  have hsent : begun.Unfolds .quiet sent := hread.moves (.turn .submitter rfl)
  have hfull : begun.Unfolds .quiet full := hsent.moves (.turn .submitter rfl)
  have hfailed : begun.Unfolds .quiet failed := hfull.moves (.turn .translator rfl)
  have hlast : begun.Unfolds .quiet last := hfailed.moves (.turn .submitter rfl)
  have hfinal : last.IsFinal .quiet := fun turn => by cases turn <;> rfl
  obtain ⟨_, _, _, hagree, _⟩ := interleavings_agree .quiet failingFirst start 1
  obtain ⟨_, hends⟩ := hagree rfl (Nat.le_refl 1) last hlast
  obtain ⟨hsubmitter, _, hsame⟩ := hends hfinal
  obtain ⟨houtcome, hworking⟩ := hsame rfl
  refine ⟨full, last, hfull, rfl, rfl, hlast, hfinal, hsubmitter, houtcome.trans rfl, ?_⟩
  rw [hworking]
  rfl

end BuildProgress.Build
