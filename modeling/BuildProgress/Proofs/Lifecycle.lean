import BuildProgress.Event
import Mathlib.Data.List.Chain

/-!
# The life of a step

What a sequence of events tells of one step: its starts and finishes, in order. They should
alternate and begin with a start, and nothing else should be told of a step before it starts.
-/

namespace BuildProgress

set_option autoImplicit false

inductive Mark where
  | start
  | finish
deriving DecidableEq, Repr

/-- A start of a step, under a name, or a finish of it. -/
inductive Turn where
  | start (name : String)
  | finish
deriving DecidableEq, Repr

def Turn.mark : Turn → Mark
  | start _ => .start
  | finish => .finish

/-- The start or finish of a step that an event tells, if it tells one. -/
def Event.turn? (step : Nat) : Event → Option Turn
  | stepStarting n name => if n = step then some (.start name) else none
  | stepFinished n => if n = step then some .finish else none
  | _ => none

def turns (step : Nat) (events : List Event) : List Turn :=
  events.filterMap (Event.turn? step)

def marks (step : Nat) (events : List Event) : List Mark :=
  (turns step events).map Turn.mark

/-- Starts and finishes take turns, a start being first. -/
def Alternates (ms : List Mark) : Prop :=
  ms.head? ≠ some .finish ∧ ms.IsChain (· ≠ ·)

/-- Every event of a step is a start of it or comes after one. -/
def StartsFirst (events : List Event) : Prop :=
  ∀ earlier event later step, events = earlier ++ event :: later → event.step? = some step →
    (∃ name, event = .stepStarting step name) ∨ ∃ name, .stepStarting step name ∈ earlier

variable {events : List Event} {event : Event} {step : Nat} {ms : List Mark}

theorem Event.turn?_eq_none (hstarts : event.kind ≠ .stepStarting)
    (hfinishes : event.kind ≠ .stepFinished) : event.turn? step = none := by
  cases event with
  | stepStarting _ _ => exact absurd rfl hstarts
  | stepFinished _ => exact absurd rfl hfinishes
  | _ => rfl

theorem Event.turn?_start (step : Nat) (name : String) :
    (stepStarting step name).turn? step = some (.start name) :=
  if_pos rfl

theorem Event.turn?_start_of_ne (name : String) {n step : Nat} (h : n ≠ step) :
    (stepStarting step name).turn? n = none :=
  if_neg h.symm

theorem Event.turn?_finish (step : Nat) : (stepFinished step).turn? step = some .finish :=
  if_pos rfl

theorem Event.turn?_finish_of_ne {n step : Nat} (h : n ≠ step) :
    (stepFinished step).turn? n = none :=
  if_neg h.symm

theorem turns_concat_of_none (h : event.turn? step = none) :
    turns step (events ++ [event]) = turns step events := by
  simp [turns, h]

theorem turns_concat_of_some {turn : Turn} (h : event.turn? step = some turn) :
    turns step (events ++ [event]) = turns step events ++ [turn] := by
  simp [turns, h]

theorem marks_concat_of_some {turn : Turn} (h : event.turn? step = some turn) :
    marks step (events ++ [event]) = marks step events ++ [turn.mark] := by
  simp [marks, turns_concat_of_some h]

theorem mem_marks_start : .start ∈ marks step events ↔ ∃ name, .stepStarting step name ∈ events := by
  simp only [marks, turns, List.mem_map, List.mem_filterMap]
  constructor
  · rintro ⟨turn, ⟨event, hin, hturn⟩, hmark⟩
    cases event with
    | stepStarting n name =>
      obtain ⟨rfl, _⟩ := Option.ite_none_right_eq_some.mp hturn
      exact ⟨name, hin⟩
    | stepFinished n =>
      obtain ⟨_, hfinish⟩ := Option.ite_none_right_eq_some.mp hturn
      cases hfinish
      cases hmark
    | _ => cases hturn
  · rintro ⟨name, hin⟩
    exact ⟨.start name, ⟨_, hin, Event.turn?_start step name⟩, rfl⟩

theorem alternates_nil : Alternates [] :=
  ⟨nofun, .nil⟩

theorem alternates_concat {m : Mark} :
    Alternates (ms ++ [m]) ↔ Alternates ms ∧ (m = .finish ↔ ms.getLast? = some .start) := by
  cases ms using List.reverseRecOn with
  | nil => cases m <;> simp [Alternates]
  | append_singleton ms l =>
    have hhead : (ms ++ [l] ++ [m]).head? = (ms ++ [l]).head? := by
      cases ms <;> rfl
    have hchain : (ms ++ [l] ++ [m]).IsChain (· ≠ ·) ↔ (ms ++ [l]).IsChain (· ≠ ·) ∧ l ≠ m := by
      rw [List.append_assoc, List.singleton_append, List.isChain_append_cons_cons]
      simp
    rw [Alternates, Alternates, hhead, hchain, List.getLast?_concat, and_assoc]
    cases l <;> cases m <;> simp

theorem Alternates.start_mem (h : Alternates ms) (hne : ms ≠ []) : .start ∈ ms := by
  cases ms with
  | nil => exact absurd rfl hne
  | cons m ms =>
    cases m with
    | start => exact List.mem_cons_self
    | finish => exact absurd rfl h.1

theorem startsFirst_concat (h : StartsFirst events)
    (hnew : ∀ step, event.step? = some step →
      (∃ name, event = .stepStarting step name) ∨ ∃ name, .stepStarting step name ∈ events) :
    StartsFirst (events ++ [event]) := by
  intro earlier event' later step heq hstep
  rcases List.eq_nil_or_concat later with rfl | ⟨later, last, rfl⟩
  · obtain ⟨rfl, hevent⟩ := List.append_inj' heq rfl
    obtain rfl : event = event' := by simpa using hevent
    exact hnew step hstep
  · have heq' : events ++ [event] = (earlier ++ event' :: later) ++ [last] := by simpa using heq
    obtain ⟨hevents, _⟩ := List.append_inj' heq' rfl
    exact h earlier event' later step hevents hstep

end BuildProgress
