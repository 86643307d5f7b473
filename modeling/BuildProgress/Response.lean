import BuildProgress.Error
import BuildProgress.Json.Reader
import BuildProgress.Message
import BuildProgress.Text.Blank
import BuildProgress.Text.Lines
import BuildProgress.Text.Utf8

/-!
# The body of a build response

A body is a sequence of lines, each of which is blank or holds one message. Reading stops at the end
of the body or at the first line that is no message.
-/

namespace BuildProgress

set_option autoImplicit false

open BuildProgress.Text

/-- How a body ends after the bytes that have come. -/
inductive BodyEnd where
  /-- Nothing follows: what stands after the last line feed is a line as well. -/
  | complete
  /-- Reading fails with the given reason; what stands after the last line feed is lost. -/
  | broken (reason : String)
  /-- More may follow: what stands after the last line feed is not a line yet. -/
  | pending
deriving DecidableEq, Repr

structure Body where
  bytes : List UInt8 := []
  ending : BodyEnd := .complete
deriving DecidableEq, Repr

inductive ReadingEnd where
  | clean
  | failed (fault : BuildError)
  | waiting
deriving DecidableEq, Repr

/-- What a body holds: its messages up to the end or the first fault. -/
structure Reading where
  messages : List Message := []
  ending : ReadingEnd := .clean
deriving Repr

namespace Body

/-- The operation of the daemon that a broken body is the failure of. -/
def readOperation : String := "read_build_response"

def feed : UInt8 := 0x0A

/-- The message of a line; none on a blank line. The carriage return of a line ending is white
space, so that trimming takes it away. -/
def readLine (line : List UInt8) : Except BuildError (Option Message) :=
  match Utf8.decode? line with
  | none => .error (.backendProtocol .notUtf8)
  | some chars =>
    let text := trim chars
    if text.isEmpty then .ok none
    else match (Json.read? text).bind Message.ofJson? with
      | some message => .ok (some message)
      | none => .error (.backendProtocol (.undecodableMessage (String.ofList text)))

/-- Reads lines until one is at fault; `atEnd` is what comes after the last line. -/
def readLines (atEnd : ReadingEnd) : List (List UInt8) → Reading
  | [] => { ending := atEnd }
  | line :: rest =>
    match readLine line with
    | .error fault => { ending := .failed fault }
    | .ok none => readLines atEnd rest
    | .ok (some message) =>
      let later := readLines atEnd rest
      { later with messages := message :: later.messages }

def lines (body : Body) : List (List UInt8) :=
  let (ended, rest) := stretches feed body.bytes
  match body.ending with
  | .complete => ended ++ if rest.isEmpty then [] else [rest]
  | .broken _ | .pending => ended

def endAfterLines (body : Body) : ReadingEnd :=
  match body.ending with
  | .complete => .clean
  | .broken reason => .failed (.daemon readOperation reason)
  | .pending => .waiting

def read (body : Body) : Reading :=
  readLines body.endAfterLines body.lines

end Body

/-- What a reader has forwarded, and how forwarding ended if it has. -/
structure Forwarding where
  sent : List Message := []
  outcome : Option (Except BuildError Unit) := some (.ok ())

def ReadingEnd.outcome : ReadingEnd → Option (Except BuildError Unit)
  | .clean => some (.ok ())
  | .failed fault => some (.error fault)
  | .waiting => none

/-- Forwards the messages of a body to a queue that has room for all of them. A closed queue is
noticed before anything is read, and is no error. -/
def forward (body : Body) (closed : Bool) : Forwarding :=
  if closed then {}
  else
    let reading := body.read
    ⟨reading.messages, reading.ending.outcome⟩

end BuildProgress
