import BuildProgress.Builder
import BuildProgress.FileTree
import BuildProgress.Table

/-!
# Requests

What is to be built: a directory that serves as the context, a Dockerfile in it, and options. A
draft names both by paths of any kind; a checked request names them by canonical paths, and its
Dockerfile lies inside its context.
-/

namespace BuildProgress

set_option autoImplicit false

structure RequestOptions where
  arguments : Table String := []
  tags : List String := []
  pull : Bool := false
  noCache : Bool := false
  target : Option String := none
  /-- The builder; without one, that of the settings. -/
  builder : Option Builder := none
deriving DecidableEq, Repr, Inhabited

/-- A request whose paths have been checked. -/
structure Request extends RequestOptions where
  context : Path
  dockerfile : Path
deriving DecidableEq, Repr, Inhabited

/-- A request whose paths have not been checked. -/
structure Draft extends RequestOptions where
  context : Path
  /-- The Dockerfile, seen from the context if it is relative. -/
  dockerfile : Option Path := none
deriving DecidableEq, Repr, Inhabited

namespace Request

def defaultDockerfile : String := "Dockerfile"

/-- The Dockerfile as it is seen from the context; all of its path if it lies outside. -/
def dockerfileInContext (r : Request) : String :=
  Path.joinComponents ((r.dockerfile.componentsAfter? r.context).getD r.dockerfile.components)

def dockerfileName (r : Request) : String :=
  r.dockerfile.fileName?.getD defaultDockerfile

def dockerfileDirectory (r : Request) : Path :=
  r.dockerfile.parent?.getD r.context

end Request

namespace Draft

/-- The path of the Dockerfile, given the canonical path of the context. -/
def dockerfilePath (d : Draft) (context : Path) : Path :=
  context.join (d.dockerfile.getD Request.defaultDockerfile)

def checkContext (d : Draft) (tree : FileTree) : Except BuildError Path :=
  if !tree.isDirectory d.context then
    .error (.invalidRequest (.contextNotDirectory d.context))
  else match tree.canonical? d.context with
    | some context => .ok context
    | none => .error (.io d.context none)

def checkDockerfile (d : Draft) (tree : FileTree) (context : Path) : Except BuildError Path :=
  let path := d.dockerfilePath context
  if !tree.isFile path then .error (.invalidRequest (.dockerfileMissing path))
  else match tree.canonical? path with
    | some dockerfile =>
      if dockerfile.startsWith context then .ok dockerfile
      else .error (.invalidRequest (.dockerfileOutside dockerfile context))
    | none => .error (.io path none)

def check (d : Draft) (tree : FileTree) : Except BuildError Request := do
  let context ← d.checkContext tree
  let dockerfile ← d.checkDockerfile tree context
  .ok { toRequestOptions := d.toRequestOptions, context, dockerfile }

end Draft

end BuildProgress
