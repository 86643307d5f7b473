import BuildProgress.Builder
import BuildProgress.Graph.Tracer
import BuildProgress.Legacy.Parser
import BuildProgress.Transcript.Basic
import BuildProgress.Wire.Status

/-!
# The translator of backend messages

One translator runs for a build: that of the legacy builder or that of BuildKit's graph. It turns
what the backend sends into events, and shows it in the transcript if there is one. The transcript
only looks on: it sees the messages and the numbers of the steps.
-/

namespace BuildProgress

set_option autoImplicit false

inductive BackendMessage where
  | response (message : Message)
  /-- A batch that comes beside the response. -/
  | status (batch : Batch)
  | contextUpload (bytes : Int)
deriving Repr

structure GraphTranslator where
  tracer : Tracer := {}
  imageId : Option String := none
deriving DecidableEq, Repr, Inhabited

inductive Translator where
  | legacy (parser : Legacy.Parser)
  | graph (graph : GraphTranslator)
deriving DecidableEq, Repr

def Translator.start : Builder → Translator
  | .legacy => .legacy {}
  | .buildKit => .graph {}

/-- A translator with state `σ` at work: what it delivers to, and the transcript if there is one. -/
structure Working (σ : Type) where
  translator : σ
  delivery : Delivery := {}
  transcript : Option Transcript := none
deriving DecidableEq, Repr

namespace Working

variable {σ α : Type}

abbrev Act (σ α : Type) := Action BuildError (Working σ) α

def reporting (act : Reporting σ α) : Act σ α :=
  Action.within (fun w => (w.translator, w.delivery))
    (fun w s => { w with translator := s.1, delivery := s.2 }) act

def present (f : σ → Transcript → Transcript) : Act σ Unit :=
  Action.update fun w => { w with transcript := w.transcript.map (f w.translator) }

end Working

namespace GraphTranslator

open Working

def tracing {α : Type} (act : Reporting Tracer α) : Act GraphTranslator α :=
  reporting <| Action.within (fun s => (s.1.tracer, s.2))
    (fun s r => ({ s.1 with tracer := r.1 }, r.2)) act

/-- Takes in a batch. It is shown with the step numbers that it has led to, also if it is refused. -/
def onBatch (handler : Handler) (batch : Batch) : Act GraphTranslator Unit := fun w =>
  let (outcome, after) := tracing (Tracer.trace handler batch) w
  (outcome, (present (fun g => Transcript.showBatch g.tracer.step? batch) after).2)

def onImageId (m : Message) : Act GraphTranslator Unit := do
  match m.payload with
  | none => Action.fail (.backendProtocol .imageIdWithoutPayload)
  | some payload =>
    match Message.imageId? payload with
    | none => Action.fail (.backendProtocol .imageIdMalformed)
    | some id => Action.update fun w => { w with translator := { w.translator with imageId := some id } }

def onTrace (handler : Handler) (m : Message) : Act GraphTranslator Unit := do
  match m.payload with
  | none => Action.fail (.backendProtocol .traceWithoutPayload)
  | some payload =>
    let batch ← Action.ofExcept (Batch.ofPayload payload)
    onBatch handler batch

def isMarked (m : Message) : Bool :=
  m.id == Message.imageIdMark || m.id == Message.traceMark

/-- Takes in what a message carries. A message without a mark is shown as it is. -/
def onContent (handler : Handler) (m : Message) : Act GraphTranslator Unit :=
  if m.id = Message.imageIdMark then onImageId m
  else if m.id = Message.traceMark then onTrace handler m
  else present fun _ => Transcript.showMessage m

/-- Takes in a message: what it carries, and then the error that it reports. -/
def onMessage (handler : Handler) (m : Message) : Act GraphTranslator Unit := do
  onContent handler m
  match m.failure? with
  | none => pure ()
  | some message =>
    if isMarked m then present fun _ => Transcript.showMessage m
    tracing (reportFailure handler message)

end GraphTranslator

namespace Legacy.Parser

def onShownMessage (handler : Handler) (m : Message) : Working.Act Parser Unit := do
  Working.present fun _ => Transcript.showMessage m
  Working.reporting (onMessage handler m)

end Legacy.Parser

namespace Translator

open Working

/-- Runs an action of the legacy translator, whose state is `parser`. -/
def asLegacy {α : Type} (parser : Legacy.Parser) (act : Act Legacy.Parser α) : Act Translator α :=
  fun w =>
    let (outcome, after) := act { w with translator := parser }
    (outcome, { after with translator := .legacy after.translator })

def asGraph {α : Type} (state : GraphTranslator) (act : Act GraphTranslator α) :
    Act Translator α :=
  fun w =>
    let (outcome, after) := act { w with translator := state }
    (outcome, { after with translator := .graph after.translator })

/-- Takes in what the backend sent. Each translator takes only what its own backend sends. -/
def handle (handler : Handler) (message : BackendMessage) : Act Translator Unit := do
  match ← Action.view Working.translator, message with
  | .legacy parser, .response m => asLegacy parser (Legacy.Parser.onShownMessage handler m)
  | .legacy parser, .contextUpload bytes =>
    asLegacy parser (reporting (Legacy.Parser.onUpload handler bytes))
  | .legacy _, .status _ => Action.fail (.contractViolation .statusToLegacy)
  | .graph state, .response m => asGraph state (GraphTranslator.onMessage handler m)
  | .graph state, .status batch => asGraph state (GraphTranslator.onBatch handler batch)
  | .graph _, .contextUpload _ => Action.fail (.contractViolation .uploadToGraph)

/-- The image that the messages have named, which is then forgotten. -/
def takeImageId (handler : Handler) : Act Translator (Option String) := do
  match ← Action.view Working.translator with
  | .legacy parser => asLegacy parser (reporting (Legacy.Parser.finish handler))
  | .graph state =>
    Action.update fun w => { w with translator := .graph { state with imageId := none } }
    pure state.imageId

def finish (handler : Handler) : Act Translator String := do
  match ← takeImageId handler with
  | some id => pure id
  | none => Action.fail (.backendProtocol .noImageId)

def unlessCancelled {α : Type} (act : Act Translator α) : Act Translator α := do
  if ← Action.view (·.delivery.cancelled) then Action.fail .cancelled else act

/-- Takes in messages one after the other. A build that the caller has cancelled takes in none. -/
def relay (handler : Handler) (messages : List BackendMessage) : Act Translator Unit :=
  Action.forEach (fun message => unlessCancelled (handle handler message)) messages

def pump (handler : Handler) (messages : List BackendMessage) : Act Translator String := do
  relay handler messages
  unlessCancelled (finish handler)

end Translator

end BuildProgress
