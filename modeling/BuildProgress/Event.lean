/-!
# Progress events

What a caller is told while an image is built, the same for both builders. Steps have numbers;
number 0 stands for what comes before the first step.
-/

namespace BuildProgress

set_option autoImplicit false

structure ByteCount where
  current : Int := 0
  total : Int := 0
deriving DecidableEq, Repr, Inhabited

/-- The state of one part of an image pull. -/
structure PullUpdate where
  message : String
  detail : Option ByteCount
  id : String
deriving DecidableEq, Repr

inductive Event where
  | contextUploadProgress (step : Nat) (bytesUploaded : Int)
  | stepStarting (step : Nat) (name : String)
  | stepOutput (step : Nat) (output : String)
  | stepPullProgress (step : Nat) (update : PullUpdate)
  | stepDownloadProgress (step : Nat) (downloaded total : Int)
  | stepFinished (step : Nat)
  | buildFailed (message : String)
deriving DecidableEq, Repr

namespace Event

inductive Kind where
  | contextUploadProgress
  | stepStarting
  | stepOutput
  | stepPullProgress
  | stepDownloadProgress
  | stepFinished
  | buildFailed
deriving DecidableEq, Repr

def Kind.label : Kind → String
  | .contextUploadProgress => "context_upload_progress"
  | .stepStarting => "step_starting"
  | .stepOutput => "step_output"
  | .stepPullProgress => "step_pull_progress"
  | .stepDownloadProgress => "step_download_progress"
  | .stepFinished => "step_finished"
  | .buildFailed => "build_failed"

def kind : Event → Kind
  | contextUploadProgress _ _ => .contextUploadProgress
  | stepStarting _ _ => .stepStarting
  | stepOutput _ _ => .stepOutput
  | stepPullProgress _ _ => .stepPullProgress
  | stepDownloadProgress _ _ _ => .stepDownloadProgress
  | stepFinished _ => .stepFinished
  | buildFailed _ => .buildFailed

def step? : Event → Option Nat
  | contextUploadProgress step _ => some step
  | stepStarting step _ => some step
  | stepOutput step _ => some step
  | stepPullProgress step _ => some step
  | stepDownloadProgress step _ _ => some step
  | stepFinished step => some step
  | buildFailed _ => none

def isFailure : Event → Bool
  | buildFailed _ => true
  | _ => false

end Event

end BuildProgress
