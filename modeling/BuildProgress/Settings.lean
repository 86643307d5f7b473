import BuildProgress.Builder
import BuildProgress.FileTree
import BuildProgress.Json.Reader
import BuildProgress.Json.Record
import BuildProgress.Json.Writer
import BuildProgress.SocketAddress

/-!
# Settings

What a user may set for all builds, kept as a JSON record in a file. A file that is missing, and a
field that is missing in it, stand for the defaults.
-/

namespace BuildProgress

set_option autoImplicit false

structure Settings where
  logLevel : String := "info"
  builder : Builder := .legacy
  /-- How many backend messages may wait for the translator. -/
  bufferSize : Nat := 64
  reportsUpload : Bool := true
  /-- How many seconds the daemon may take to cancel a build. -/
  cancelSeconds : Nat := 10
  color : Bool := false
  metricsAddress : Option SocketAddress := none
deriving DecidableEq, Repr, Inhabited

/-- Reads the word for a builder: a string, or an object whose only member has the word as its key
and null as its value. -/
def Builder.ofJson? (j : Json) : Option Builder :=
  let word := match j with
    | .string text => text
    | .object [(key, .null)] => key
    | _ => none
  if word = some (label legacy) then some legacy
  else if word = some (label buildKit) then some buildKit
  else none

namespace Settings

open Json

def keys : List String :=
  ["log_level", "builder", "event_buffer_size", "report_context_upload_progress",
    "cancel_timeout_secs", "color_output", "metrics_listen_addr"]

def readAddress (j : Json) : Option SocketAddress := do
  SocketAddress.ofText? (← text? j)

def ofJson? (j : Json) : Option Settings := do
  let defaults : Settings := {}
  match ← fields? keys j with
  | [logLevel, builder, bufferSize, reportsUpload, cancelSeconds, color, metricsAddress] =>
    some {
      logLevel := ← fieldOr text? defaults.logLevel logLevel
      builder := ← fieldOr Builder.ofJson? defaults.builder builder
      bufferSize := ← fieldOr unsigned? defaults.bufferSize bufferSize
      reportsUpload := ← fieldOr bool? defaults.reportsUpload reportsUpload
      cancelSeconds := ← fieldOr unsigned? defaults.cancelSeconds cancelSeconds
      color := ← fieldOr bool? defaults.color color
      metricsAddress := ← optionalField readAddress metricsAddress }
  | _ => none

def members (s : Settings) : List (String × Json) :=
  keys.zip [ofString s.logLevel, ofString s.builder.label, ofNat s.bufferSize,
    .bool s.reportsUpload, ofNat s.cancelSeconds, .bool s.color,
    match s.metricsAddress with
    | some address => ofString address.text
    | none => .null]

def text (s : Settings) : List Char :=
  writeLines s.members

/-- Settings are refused if no message may wait. -/
def check (s : Settings) : Except BuildError Unit :=
  if s.bufferSize = 0 then .error (.invalidConfig .emptyBuffer) else .ok ()

def ofText (text : List Char) : Except BuildError Settings :=
  match (read? text).bind ofJson? with
  | none => .error (.invalidConfig .malformed)
  | some s => s.check.map fun _ => s

/-- The settings in a file; the defaults if there is none. -/
def load (tree : FileTree) (path : Path) : Except BuildError Settings :=
  if !tree.exists? path then .ok {}
  else match tree.readText? path with
    | none => .error (.invalidConfig .unreadable)
    | some text => ofText text.toList

def makeParent (tree : FileTree) (path : Path) : Except BuildError FileTree :=
  match path.parent? with
  | none => .ok tree
  | some parent =>
    match tree.makeDirectories? parent with
    | some tree => .ok tree
    | none => .error (.io parent none)

/-- Writes settings to a file, in directories that are made if they are missing. -/
def save (s : Settings) (tree : FileTree) (path : Path) : Except BuildError FileTree := do
  let tree ← makeParent tree path
  match tree.write? path (Utf8.encode s.text) with
  | some tree => .ok tree
  | none => .error (.io path none)

end Settings

end BuildProgress
