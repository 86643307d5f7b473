import BuildProgress.Delivery
import BuildProgress.Legacy.Line
import BuildProgress.Message

/-!
# From the legacy builder's messages to steps

A step line ends the step before it and starts its own. Other text is output of the current step,
apart from lines that the builder adds: some of them are left out always, some only until the step
has shown output of its own.
-/

namespace BuildProgress.Legacy

set_option autoImplicit false

open BuildProgress.Text

structure Parser where
  /-- The number of the current step; 0 before the first one. -/
  step : Nat := 0
  transfers : Bool := false
  shown : Bool := false
  layered : Bool := false
  imageId : Option String := none
deriving DecidableEq, Repr, Inhabited

namespace Parser

def enter (p : Parser) (step : Nat) (name : List Char) : Parser :=
  { p with step, transfers := isTransfer name, shown := false, layered := false }

/-- Whether a text that is no step line is left out in this state. -/
def leavesOut (p : Parser) (text : List Char) : Bool :=
  (!p.shown && (text == ['\n'] || isRunningLine text)) || isRemovalLine text || isLayerLine text
    || (p.layered && isBuiltLine text)

/-- The state after a text that is left out: only the line of a layer is remembered. -/
def afterLeftOut (p : Parser) (text : List Char) : Parser :=
  if isLayerLine text then { p with layered := true } else p

def closeStep (handler : Handler) : Reporting Parser Unit := do
  let step ← look Parser.step
  if step ≠ 0 then report handler (.stepFinished step)

def openStep (handler : Handler) (line : StepLine) : Reporting Parser Unit := do
  match readDigits? line.digits with
  | none => Action.fail (.stepNumberTooLarge (String.ofList line.digits))
  | some step =>
    closeStep handler
    change (·.enter step line.name)
    report handler (.stepStarting step (String.ofList line.name))

def onText (handler : Handler) (text : String) : Reporting Parser Unit := do
  match StepLine.read? text.toList with
  | some line => openStep handler line
  | none =>
    let p ← look id
    if p.leavesOut text.toList then change (·.afterLeftOut text.toList)
    else
      change ({ · with shown := true })
      report handler (.stepOutput p.step text)

def onProgress (handler : Handler) (m : Message) : Reporting Parser Unit := do
  let p ← look id
  if p.transfers then
    report handler (.stepPullProgress p.step
      { message := m.status, detail := m.progress, id := m.id })
  else
    let count := m.progress.getD {}
    report handler (.stepDownloadProgress p.step count.current count.total)

/-- Takes in a message: its text, its progress report, its error and its payload, in this order. -/
def onMessage (handler : Handler) (m : Message) : Reporting Parser Unit := do
  if m.stream ≠ "" then onText handler m.stream
  if m.status ≠ "" || m.progress.isSome then onProgress handler m
  match m.failure? with
  | some message => reportFailure handler message
  | none =>
    match m.payload.bind Message.imageId? with
    | some id => change ({ · with imageId := some id })
    | none => pure ()

def onUpload (handler : Handler) (bytes : Int) : Reporting Parser Unit := do
  let step ← look Parser.step
  report handler (.contextUploadProgress step bytes)

/-- Ends the build: the last step ends if an image was named. -/
def finish (handler : Handler) : Reporting Parser (Option String) := do
  let p ← look id
  if p.imageId.isSome then closeStep handler
  change ({ · with imageId := none })
  pure p.imageId

end Parser

end BuildProgress.Legacy
