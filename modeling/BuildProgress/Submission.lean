import BuildProgress.Client.Config
import BuildProgress.Session

/-!
# Submissions

What the daemon is given with a build. The legacy builder gets the context and the credentials with
it; BuildKit gets a session instead, over which it fetches both.
-/

namespace BuildProgress

set_option autoImplicit false

structure Submission where
  builder : Builder
  context : Option Path := none
  dockerfile : String
  arguments : Table String
  tags : List String
  pull : Bool
  noCache : Bool
  target : String
  remove : Bool := true
  credentials : Table Credential := []
  sessionId : Option String := none
  buildId : Option String := none
  /-- Where the daemon finds a context that is not uploaded. -/
  remoteContext : Option String := none
deriving DecidableEq, Repr

namespace Submission

/-- The remote context that stands for the session. -/
def sessionContext : String := "client-session"

def argumentsFor (r : Request) (config : ClientConfig) (host : String) : Table String :=
  (config.proxiesFor host).addTo r.arguments

def legacy (r : Request) (config : ClientConfig) (host : String) : Submission where
  builder := .legacy
  context := some r.context
  dockerfile := r.dockerfileInContext
  arguments := argumentsFor r config host
  tags := r.tags
  pull := r.pull
  noCache := r.noCache
  target := r.target.getD ""
  credentials := config.credentials

def buildKit (r : Request) (session : Session) (buildId : String) (config : ClientConfig)
    (host : String) : Submission where
  builder := .buildKit
  dockerfile := r.dockerfileName
  arguments := argumentsFor r config host
  tags := r.tags
  pull := r.pull
  noCache := r.noCache
  target := r.target.getD ""
  sessionId := some session.id
  buildId := some buildId
  remoteContext := some sessionContext

end Submission

end BuildProgress
