import BuildProgress.Response
import BuildProgress.Translator

/-!
# The pipeline of a build

The submitter reads a response and sends its messages to the translator through a queue of bounded
capacity. The two take turns in any order. When the translator ends it closes the queue: what waits
in it is dropped and nothing more is accepted.
-/

namespace BuildProgress.Build

set_option autoImplicit false

inductive Submitter where
  | reading (rest : Reading)
  | sending (message : Message) (rest : Reading)
  | ended (outcome : Except BuildError Unit)

/-- Submitter, queue and translator. -/
structure Pipeline where
  capacity : Nat
  submitter : Submitter
  queue : List BackendMessage := []
  working : Working Translator
  outcome : Option (Except BuildError String) := none

inductive Turn where
  | submitter
  | translator
deriving DecidableEq, Repr

def Submitter.read (rest : Reading) : Option Submitter :=
  match rest.messages with
  | message :: later => some (.sending message { rest with messages := later })
  | [] => rest.ending.outcome.map .ended

namespace Pipeline

def start (capacity : Nat) (body : Body) (working : Working Translator) : Pipeline :=
  { capacity, submitter := .reading body.read, working }

def isDrained (p : Pipeline) : Bool :=
  p.queue.isEmpty && match p.submitter with
    | .ended _ => true
    | _ => false

/-- A turn of the submitter: it reads a message or sends one. It ends well once the queue is closed,
and has to wait while the queue is full. -/
def submit (p : Pipeline) : Option Pipeline :=
  match p.submitter with
  | .ended _ => none
  | .reading rest =>
    if p.outcome.isSome then some { p with submitter := .ended (.ok ()) }
    else (Submitter.read rest).map fun next => { p with submitter := next }
  | .sending message rest =>
    if p.outcome.isSome then some { p with submitter := .ended (.ok ()) }
    else if p.queue.length < p.capacity then
      some { p with queue := p.queue ++ [.response message], submitter := .reading rest }
    else none

def close (p : Pipeline) (outcome : Except BuildError String) (working : Working Translator) :
    Pipeline :=
  { p with queue := [], working, outcome := some outcome }

/-- A turn of the translator: it takes a message in, or ends the build when no message is left. It
has to wait while the queue is empty and more may be sent. -/
def translate (handler : Handler) (p : Pipeline) : Option Pipeline :=
  if p.outcome.isSome then none
  else if p.working.delivery.cancelled then some (p.close (.error .cancelled) p.working)
  else match p.queue with
    | message :: rest =>
      match Translator.handle handler message p.working with
      | (.ok (), w) => some { p with queue := rest, working := w }
      | (.error e, w) => some (p.close (.error e) w)
    | [] =>
      if p.isDrained then
        let (outcome, w) := Translator.finish handler p.working
        some (p.close outcome w)
      else none

/-- A turn. There is none for a task that has ended or has to wait. -/
def step (handler : Handler) (p : Pipeline) : Turn → Option Pipeline
  | .submitter => p.submit
  | .translator => p.translate handler

inductive Reaches (handler : Handler) (p : Pipeline) : Pipeline → Prop where
  | refl : Reaches handler p p
  | step {q r : Pipeline} (turn : Turn) (before : Reaches handler p q)
      (next : q.step handler turn = some r) : Reaches handler p r

/-- Whether no task can take a turn. -/
def IsFinal (handler : Handler) (p : Pipeline) : Prop :=
  ∀ turn, p.step handler turn = none

end Pipeline

end BuildProgress.Build
