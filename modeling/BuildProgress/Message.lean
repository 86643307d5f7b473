import BuildProgress.Event
import BuildProgress.Json.Record

/-!
# Messages of a build response

Both builders answer with JSON messages of one shape. A message may hold text, a progress report, an
error and a payload, in any combination.
-/

namespace BuildProgress

set_option autoImplicit false

structure ErrorDetail where
  code : Int := 0
  message : String := ""
deriving DecidableEq, Repr, Inhabited

structure Message where
  stream : String := ""
  status : String := ""
  progress : Option ByteCount := none
  id : String := ""
  error : Option ErrorDetail := none
  errorText : String := ""
  payload : Option Json := none
deriving Repr, Inhabited

namespace Message

open Json

def imageIdMark : String := "moby.image.id"

def traceMark : String := "moby.buildkit.trace"

/-- The error that a message reports: its details count before its text. -/
def failure? (m : Message) : Option String :=
  match m.error with
  | some detail => some detail.message
  | none => if m.errorText = "" then none else some m.errorText

def readByteCount (j : Json) : Option ByteCount := do
  match ← fields? ["current", "total"] j with
  | [current, total] =>
    some { current := ← fieldOr signed? 0 current, total := ← fieldOr signed? 0 total }
  | _ => none

def readErrorDetail (j : Json) : Option ErrorDetail := do
  match ← fields? ["code", "message"] j with
  | [code, message] =>
    some { code := ← fieldOr signed? 0 code, message := ← fieldOr text? "" message }
  | _ => none

def keys : List String :=
  ["stream", "status", "progressDetail", "id", "errorDetail", "error", "aux"]

/-- How deep arrays and objects may be nested in a payload: with the message around it, 127. -/
def payloadLevels : Nat := 126

def ofJson? (j : Json) : Option Message := do
  match ← fields? keys j with
  | [stream, status, progress, id, error, errorText, payload] =>
    some {
      stream := ← fieldOr text? "" stream
      status := ← fieldOr text? "" status
      progress := ← optionalField readByteCount progress
      id := ← fieldOr text? "" id
      error := ← optionalField readErrorDetail error
      errorText := ← fieldOr text? "" errorText
      payload := ← optionalField (keep? payloadLevels) payload }
  | _ => none

def byteCountJson (c : ByteCount) : Json :=
  ofMembers [("current", ofInt c.current), ("total", ofInt c.total)]

def errorDetailJson (d : ErrorDetail) : Json :=
  ofMembers [("code", ofInt d.code), ("message", ofString d.message)]

/-- The members of the record of a message, in the order of `keys`. -/
def members (m : Message) : List (String × Json) :=
  keys.zip [ofString m.stream, ofString m.status, (m.progress.map byteCountJson).getD .null,
    ofString m.id, (m.error.map errorDetailJson).getD .null, ofString m.errorText,
    m.payload.getD .null]

def toJson (m : Message) : Json :=
  ofMembers m.members

def imageId? (payload : Json) : Option String := do
  match ← fields? ["ID"] payload with
  | [some id] => text? id
  | _ => none

end Message

end BuildProgress
