import BuildProgress.Request
import BuildProgress.Sha256

/-!
# Sessions

BuildKit fetches the context and the credentials of a build over a session.
-/

namespace BuildProgress

set_option autoImplicit false

structure Session where
  id : String
  name : String
  /-- The key by which the daemon knows earlier transfers of the same context. -/
  sharedKey : String
  context : Path
  dockerfileDirectory : Path
deriving DecidableEq, Repr

namespace Session

/-- The key for a context on a machine: the hash of both. -/
def keyOf (node : String) (context : Path) : String :=
  String.ofList (Text.bytesHex (Sha256.hash (Utf8.encode (node ++ ":" ++ context).toList)))

def ofRequest (r : Request) (node id : String) : Session where
  id := id
  name := r.context.fileName?.getD ""
  sharedKey := keyOf node r.context
  context := r.context
  dockerfileDirectory := r.dockerfileDirectory

end Session

end BuildProgress
