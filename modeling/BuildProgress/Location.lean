import BuildProgress.Path
import BuildProgress.Table

/-!
# Where files lie

The files of a user lie in one directory, which is shared with other clients of the daemon. The
environment may name another directory, and another file for the settings.
-/

namespace BuildProgress

set_option autoImplicit false

structure Location where
  directory : Path
  settingsFile : Path
deriving DecidableEq, Repr

namespace Location

def clientFile (l : Location) : Path :=
  Path.join l.directory "config.json"

def nodeFile (directory : Path) : Path :=
  Path.join directory ".buildNodeID"

/-- The value of a variable, unless it is empty. -/
def given? (environment : Table String) (name : String) : Option String :=
  (environment.get? name).filter (· ≠ "")

/-- Where the files lie in an environment, for a user whose own directory is `home`. -/
def ofEnvironment (environment : Table String) (home : Path) : Location :=
  let own := given? environment "BUILDTRACE_CONFIG_DIR"
  let shared := given? environment "DOCKER_CONFIG"
  let directory := (own.or shared).getD (Path.join home ".docker")
  let settings := given? environment "BUILDTRACE_CONFIG"
  ⟨directory, settings.getD (Path.join directory "buildtrace.json")⟩

end Location

end BuildProgress
