import BuildProgress.Build.Feed
import BuildProgress.Build.Group
import BuildProgress.Identifier
import BuildProgress.Metrics
import BuildProgress.Settings
import BuildProgress.Submission

/-!
# Runs of builds

A request is submitted to a daemon, what the daemon sends is translated, and the image or an error
is reported. Messages are translated in the order in which they are sent, each before the next one
is taken in. The tasks of a build may interleave in other ways, which changes none of this as long as
the response ends well.
-/

namespace BuildProgress.Build

set_option autoImplicit false

/-- What a user brings to every build. -/
structure Setup where
  settings : Settings := {}
  config : ClientConfig := {}
  node : String := ""
deriving Repr

/-- A build as far as it has come when the daemon does nothing more. -/
structure Run where
  builder : Builder
  submission : Submission
  session : Option Session
  working : Working Translator
  outcome : Option (Except BuildError String)
  cancellations : Nat

/-- The ends of the tasks that end by themselves, in that order. The tasks that are cancelled then
add nothing to the outcome. -/
def taskEnds (handler : Handler) (feed : Feed) (start : Working Translator) :
    List TaskEnd × Working Translator :=
  match Translator.relay handler feed.messages start with
  | (.error e, w) => ([.error e], w)
  | (.ok (), w) =>
    match feed.ending with
    | .submitted (.ok ()) =>
      let (image, last) := Translator.unlessCancelled (Translator.finish handler) w
      ([.ok none, image.map some], last)
    | .submitted (.error e) | .sessionLost e => ([.error e], w)
    | .waiting => (if w.delivery.cancelled then [.error .cancelled] else [], w)

/-- How often the daemon is asked to cancel a build: once if the build is cancelled, by the caller
or by the group, while its response is running. A legacy build ends with its response. -/
def cancellationsOf (builder : Builder) (cancelledBefore cancelled responseRunning : Bool) : Nat :=
  if builder = .buildKit && (cancelledBefore || (cancelled && responseRunning)) then 1 else 0

namespace Setup

def builderOf (s : Setup) (r : Request) : Builder :=
  r.builder.getD s.settings.builder

def sessionOf (s : Setup) (random : RandomBytes) (r : Request) : Option Session :=
  match s.builderOf r with
  | .legacy => none
  | .buildKit => some (Session.ofRequest r s.node (Identifier.short random))

def submissionOf (s : Setup) (random : RandomBytes) (r : Request) (host : String) : Submission :=
  match s.sessionOf random r with
  | none => Submission.legacy r s.config host
  | some session =>
    let buildId := Identifier.long fun place => random (place + 16)
    Submission.buildKit r session buildId s.config host

def transcript (s : Setup) : Transcript :=
  { color := s.settings.color }

/-- The translator of a build that nothing has been sent to. -/
def start (s : Setup) (transcript : Option Transcript) (cancelledBefore : Bool) (r : Request) :
    Working Translator :=
  { translator := .start (s.builderOf r), delivery := { cancelled := cancelledBefore }, transcript }

/-- Runs a build. The caller may have cancelled it before it starts. -/
def build (s : Setup) (random : RandomBytes) (daemon : Daemon) (handler : Handler)
    (transcript : Option Transcript) (cancelledBefore : Bool) (r : Request) : Run :=
  let builder := s.builderOf r
  let feed := daemon.feed s.settings.reportsUpload builder
  let (ends, working) := taskEnds handler feed (s.start transcript cancelledBefore r)
  let group := Group.ofEnds ends
  let callerCancelled := working.delivery.cancelled
  { builder
    submission := s.submissionOf random r daemon.host
    session := s.sessionOf random r
    working
    outcome := if ends.isEmpty then none else some (group.outcome callerCancelled)
    cancellations := cancellationsOf builder cancelledBefore (group.cancelled || callerCancelled)
      feed.ending.isRunning }

end Setup

/-- The word for an outcome in metrics. A crash has none. -/
def outcomeLabel? : Except BuildError String → Option String
  | .ok _ => some "success"
  | .error (.stepNumberTooLarge _) => none
  | .error e => some e.kind.label

def Run.count (run : Run) (m : Metrics) : Metrics :=
  match run.outcome.bind outcomeLabel? with
  | some label => m.countBuild run.builder.label label
  | none => m

end BuildProgress.Build
