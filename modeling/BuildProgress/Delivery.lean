import BuildProgress.Action
import BuildProgress.Counter
import BuildProgress.Error
import BuildProgress.Event

/-!
# Delivery of events

Events go to the caller's handler one at a time. The handler may ask to stop, after which nothing is
delivered any more; after a failure of the build was delivered, later events are dropped; and a step
that has not started cannot finish.
-/

namespace BuildProgress

set_option autoImplicit false

/-- What a handler answers to an event. -/
structure Reply where
  stop : Bool := false
  /-- Cancels the build in the caller's name, as the caller may also do from elsewhere. -/
  cancel : Bool := false
deriving DecidableEq, Repr, Inhabited

/-- A handler answers to an event; what it answers may depend on the events it was given before. -/
abbrev Handler := List Event → Event → Reply

namespace Handler

def quiet : Handler := fun _ _ => {}

/-- The handler that passes events on to a receiver, and asks to stop once the receiver is gone. -/
def forwarding (receiverOpen : Bool) : Handler := fun _ _ => { stop := !receiverOpen }

/-- The handler that goes from state to state: `next` gives its answer and its new state. -/
def ofStep {σ : Type} (initial : σ) (next : σ → Event → Reply × σ) : Handler := fun earlier event =>
  (next (earlier.foldl (fun s e => (next s e).2) initial) event).1

end Handler

inductive Phase where
  | receiving
  | aborted
  | terminated
deriving DecidableEq, Repr

/-- The guard between what produces events and the handler. -/
structure Delivery where
  phase : Phase := .receiving
  /-- The steps that a delivered or attempted event started. -/
  started : List Nat := []
  delivered : Nat := 0
  /-- The events that the handler was given, oldest first. -/
  history : List Event := []
  counts : Counter Event.Kind := []
  aborts : Nat := 0
  cancelled : Bool := false
deriving DecidableEq, Repr

namespace Delivery

def isAborted (d : Delivery) : Bool :=
  d.phase == .aborted

def isTerminated (d : Delivery) : Bool :=
  d.phase == .terminated

def noteStart (d : Delivery) : Event → Delivery
  | .stepStarting step _ => { d with started := d.started.insert step }
  | _ => d

def phaseAfter (event : Event) (reply : Reply) : Phase :=
  if reply.stop then .aborted else if event.isFailure then .terminated else .receiving

def handOver (handler : Handler) (event : Event) (d : Delivery) : Except BuildError Unit × Delivery :=
  let reply := handler d.history event
  let after :=
    { d with
      phase := phaseAfter event reply
      delivered := d.delivered + 1
      history := d.history ++ [event]
      counts := d.counts.bump event.kind
      aborts := if reply.stop then d.aborts + 1 else d.aborts
      cancelled := d.cancelled || reply.cancel }
  (if reply.stop then .error .callbackFailed else .ok (), after)

/-- Delivers an event, unless delivery has ended or the event finishes a step that has not
started. -/
def emit (handler : Handler) (event : Event) : Action BuildError Delivery Unit := fun d =>
  match d.phase with
  | .aborted => (.error .callbackFailed, d)
  | .terminated => (.ok (), d)
  | .receiving =>
    match event with
    | .stepFinished step =>
      if step ∈ d.started then handOver handler event d
      else (.error (.contractViolation (.finishedBeforeStart step)), d)
    | _ => handOver handler event (d.noteStart event)

end Delivery

/-- An action of something with state `σ` that delivers events as it goes. -/
abbrev Reporting (σ α : Type) := Action BuildError (σ × Delivery) α

def report {σ : Type} (handler : Handler) (event : Event) : Reporting σ Unit :=
  Action.within Prod.snd (fun s d => (s.1, d)) (Delivery.emit handler event)

def look {σ α : Type} (f : σ → α) : Reporting σ α :=
  Action.view fun s => f s.1

def change {σ : Type} (f : σ → σ) : Reporting σ Unit :=
  Action.update fun s => (f s.1, s.2)

/-- Tells the handler that the build failed, and stops with that failure. -/
def reportFailure {σ : Type} (handler : Handler) (message : String) : Reporting σ Unit := do
  report handler (.buildFailed message)
  Action.fail (.buildFailed message)

end BuildProgress
