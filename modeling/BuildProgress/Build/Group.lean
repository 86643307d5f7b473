import BuildProgress.Error

/-!
# The tasks of a build

A build runs as a group of tasks. The group notes the errors of its tasks as they end, and cancels
the tasks that are left at the first error. Which error is that of the build does not depend on what
the other tasks make of being cancelled.
-/

namespace BuildProgress.Build

set_option autoImplicit false

/-- How a task ended: with an error, or well. The translator gives the image then. -/
abbrev TaskEnd := Except BuildError (Option String)

/-- What a group has noted of the tasks that have ended. -/
structure Group where
  /-- The errors, in the order in which the tasks ended. -/
  errors : List BuildError := []
  cancelled : Bool := false
  imageId : Option String := none
deriving DecidableEq, Repr, Inhabited

namespace Group

def collect (g : Group) : TaskEnd → Group
  | .ok none => g
  | .ok (some id) => { g with imageId := some id }
  | .error e => { g with errors := g.errors ++ [e], cancelled := g.cancelled || g.errors.isEmpty }

def ofEnds (ends : List TaskEnd) : Group :=
  ends.foldl collect {}

/-- The error of a build: a handler that asked to stop counts before a caller who cancelled, and
that before the first error of a task. -/
def error? (g : Group) (callerCancelled : Bool) : Option BuildError :=
  if .callbackFailed ∈ g.errors then some .callbackFailed
  else if callerCancelled then some .cancelled
  else g.errors.head?

def outcome (g : Group) (callerCancelled : Bool) : Except BuildError String :=
  match g.error? callerCancelled, g.imageId with
  | some e, _ => .error e
  | none, some id => .ok id
  | none, none => .error (.contractViolation .imageIdLost)

end Group

end BuildProgress.Build
