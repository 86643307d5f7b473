import BuildProgress.Response
import BuildProgress.Translator

/-!
# What a daemon sends

In a build the daemon sends messages on three ways: reports of the upload of the context, batches
over the session, and the response. The first two come before the response. Which of them there are
depends on the builder.
-/

namespace BuildProgress.Build

set_option autoImplicit false

/-- What a daemon does in a build. -/
structure Daemon where
  host : String := ""
  /-- The reports of the upload, each of the bytes sent so far. -/
  uploads : List Int := []
  batches : List Batch := []
  /-- Why the session breaks, if it does not last until it is ended. -/
  sessionFault : Option BuildError := none
  refusal : Option BuildError := none
  response : Body := {}
deriving Repr

/-- What comes after the last message of a daemon. -/
inductive FeedEnd where
  | submitted (outcome : Except BuildError Unit)
  | sessionLost (fault : BuildError)
  | waiting

structure Feed where
  messages : List BackendMessage
  ending : FeedEnd

def FeedEnd.isRunning : FeedEnd → Bool
  | .submitted _ => false
  | .sessionLost _ | .waiting => true

def Feed.ofResponse (body : Body) : Feed :=
  let forwarded := forward body false
  ⟨forwarded.sent.map .response, match forwarded.outcome with
    | some outcome => .submitted outcome
    | none => .waiting⟩

def Feed.after (messages : List BackendMessage) (feed : Feed) : Feed :=
  { feed with messages := messages ++ feed.messages }

/-- What a daemon sends to a submitted build: its response, unless it refuses the build. -/
def Daemon.reply (d : Daemon) : Feed :=
  match d.refusal with
  | some e => ⟨[], .submitted (.error e)⟩
  | none => Feed.ofResponse d.response

/-- What a daemon sends before its response. The context is uploaded to the legacy builder only, and
there is a session with BuildKit only. -/
def Daemon.before (d : Daemon) (reportsUpload : Bool) : Builder → List BackendMessage
  | .legacy => if reportsUpload && d.refusal.isNone then d.uploads.map .contextUpload else []
  | .buildKit => d.batches.map .status

/-- What a daemon sends in a build. -/
def Daemon.feed (d : Daemon) (reportsUpload : Bool) (builder : Builder) : Feed :=
  let rest : Feed := match builder, d.sessionFault with
    | .buildKit, some e => ⟨[], .sessionLost e⟩
    | _, _ => d.reply
  rest.after (d.before reportsUpload builder)

end BuildProgress.Build
