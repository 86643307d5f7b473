import BuildProgress.Text.Quoted

/-!
# Build errors

Why a build, a request or a configuration was refused. Every error holds its cause; the wording is
in one place, `BuildError.messageWith`. Where another reader's complaint is part of the wording (a
JSON text that does not parse, a file that cannot be read), the complaint is a parameter.
-/

namespace BuildProgress

set_option autoImplicit false

open BuildProgress.Text

/-- What is wrong with what a build backend sent. -/
inductive ProtocolFault where
  | undecodableMessage (line : String)
  | notUtf8
  | traceNotText
  | traceNotBase64
  | traceMalformed
  | traceWithoutPayload
  | imageIdWithoutPayload
  | imageIdMalformed
  | noImageId
  /-- A fault that another part of the program put into words. -/
  | reported (reason : String)
deriving DecidableEq, Repr

/-- Which promise inside the program or between it and a backend was broken. -/
inductive ContractFault where
  /-- Some vertices of a batch depend on themselves. -/
  | cyclicInputs (digests : List String)
  | unknownVertex (digest : String)
  | finishedBeforeStart (step : Nat)
  | statusToLegacy
  | uploadToGraph
  /-- All tasks of a build ended well and none gave an image id. -/
  | imageIdLost
  | reported (reason : String)
deriving DecidableEq, Repr

/-- Why a request is not valid. -/
inductive RequestFault where
  | contextNotDirectory (path : String)
  | dockerfileMissing (path : String)
  | dockerfileOutside (dockerfile context : String)
  | unknownBuilder (text : String)
  | reported (reason : String)
deriving DecidableEq, Repr

/-- Why a configuration is not valid. -/
inductive ConfigFault where
  | unreadable
  | malformed
  | clientMalformed (path : String)
  /-- The event buffer has no room for an event. -/
  | emptyBuffer
  | reported (reason : String)
deriving DecidableEq, Repr

/-- Why a build ended without an image. -/
inductive BuildError where
  | backendProtocol (fault : ProtocolFault)
  | buildFailed (message : String)
  | callbackFailed
  | cancelled
  | contractViolation (fault : ContractFault)
  | invalidRequest (fault : RequestFault)
  | invalidConfig (fault : ConfigFault)
  | daemon (operation reason : String)
  /-- A file could not be used. The complaint is the system's unless a reason is given. -/
  | io (path : String) (reason : Option String)
  | other (text : String)
  /-- A step line counts beyond 64 bits. The daemon promises that this never happens, so that the
  program does not go on: this is a crash and not one of the outcomes of a build. -/
  | stepNumberTooLarge (digits : String)
deriving DecidableEq, Repr

/-- The classes of errors that callers tell apart. -/
inductive ErrorKind where
  | backendProtocol
  | buildFailed
  | callbackAbort
  | cancelled
  | contractViolation
  | request
  | transport
deriving DecidableEq, Repr

def ErrorKind.label : ErrorKind → String
  | .backendProtocol => "backend_protocol"
  | .buildFailed => "build_failed"
  | .callbackAbort => "callback_abort"
  | .cancelled => "cancelled"
  | .contractViolation => "contract_violation"
  | .request => "request"
  | .transport => "transport"

/-- The reason in words; `detail` is the complaint of a reader that the fault passes on. -/
def ProtocolFault.reason (detail : String) : ProtocolFault → String
  | .undecodableMessage line => "undecodable message " ++ quoted line ++ ": " ++ detail
  | .notUtf8 => "message is not valid UTF-8: " ++ detail
  | .traceNotText => "trace payload is not a string"
  | .traceNotBase64 => "trace payload is not base64: " ++ detail
  | .traceMalformed => "invalid trace message: " ++ detail
  | .traceWithoutPayload => "trace message without payload"
  | .imageIdWithoutPayload => "image id message without payload"
  | .imageIdMalformed => detail
  | .noImageId => "build finished without reporting an image id"
  | .reported reason => reason

def ContractFault.reason : ContractFault → String
  | .cyclicInputs digests => "cyclic vertex inputs in status batch: " ++ quotedList digests
  | .unknownVertex digest => "vertex " ++ digest ++ " referenced before it started"
  | .finishedBeforeStart step => "step " ++ toString step ++ " finished before it was started"
  | .statusToLegacy => "solve status sent to the legacy translator"
  | .uploadToGraph => "context upload progress sent to the graph translator"
  | .imageIdLost => "translator finished without an image id"
  | .reported reason => reason

def RequestFault.reason : RequestFault → String
  | .contextNotDirectory path =>
    "Context directory " ++ path ++ " does not exist or is not a directory"
  | .dockerfileMissing path => "Dockerfile " ++ path ++ " does not exist"
  | .dockerfileOutside dockerfile context =>
    "Dockerfile " ++ dockerfile ++ " is not a child of the context directory " ++ context
  | .unknownBuilder text => "Unknown builder version: " ++ text
  | .reported reason => reason

def ConfigFault.reason (detail : String) : ConfigFault → String
  | .unreadable => "Failed to read config: " ++ detail
  | .malformed => "Failed to parse config: " ++ detail
  | .clientMalformed path => "Failed to parse " ++ path ++ ": " ++ detail
  | .emptyBuffer => "event_buffer_size must be at least 1"
  | .reported reason => reason

namespace BuildError

def kind : BuildError → ErrorKind
  | .backendProtocol _ => .backendProtocol
  | .buildFailed _ => .buildFailed
  | .callbackFailed => .callbackAbort
  | .cancelled => .cancelled
  | .contractViolation _ | .stepNumberTooLarge _ => .contractViolation
  | .invalidRequest _ | .invalidConfig _ => .request
  | .daemon _ _ | .io _ _ | .other _ => .transport

def isContractViolation : BuildError → Bool
  | .contractViolation _ => true
  | _ => false

/-- The text of an error; `detail` is the complaint of a reader that the error passes on. -/
def messageWith (detail : String) : BuildError → String
  | .backendProtocol fault => "Malformed message from build backend: " ++ fault.reason detail
  | .buildFailed message => "Build failed: " ++ message
  | .callbackFailed => "progress callback failed"
  | .cancelled => "Build cancelled"
  | .contractViolation fault => "Internal contract violation: " ++ fault.reason
  | .invalidRequest fault => "Invalid image build request: " ++ fault.reason
  | .invalidConfig fault => "Invalid configuration: " ++ fault.reason detail
  | .daemon operation reason => "Daemon operation '" ++ operation ++ "' failed: " ++ reason
  | .io path reason => "I/O error at " ++ quotedPath path ++ ": " ++ reason.getD detail
  | .other text => text
  | .stepNumberTooLarge digits =>
    "step number '" ++ digits ++ "' matched the step line pattern: " ++ detail

def message (e : BuildError) : String :=
  e.messageWith "not readable"

end BuildError

end BuildProgress
