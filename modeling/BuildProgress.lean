import BuildProgress.Action
import BuildProgress.Base64
import BuildProgress.Build.Feed
import BuildProgress.Build.Group
import BuildProgress.Build.Pipeline
import BuildProgress.Build.Run
import BuildProgress.Builder
import BuildProgress.Client.Config
import BuildProgress.Client.Credential
import BuildProgress.Client.Proxy
import BuildProgress.Counter
import BuildProgress.Delivery
import BuildProgress.Error
import BuildProgress.Event
import BuildProgress.FileTree
import BuildProgress.Graph.Batch
import BuildProgress.Graph.Countdown
import BuildProgress.Graph.Display
import BuildProgress.Graph.DisplayClass
import BuildProgress.Graph.Order
import BuildProgress.Graph.Slots
import BuildProgress.Graph.Tracer
import BuildProgress.Graph.Worklist
import BuildProgress.Identifier
import BuildProgress.Json.Basic
import BuildProgress.Json.Double
import BuildProgress.Json.Reader
import BuildProgress.Json.Record
import BuildProgress.Json.Writer
import BuildProgress.Legacy.Line
import BuildProgress.Legacy.Parser
import BuildProgress.Location
import BuildProgress.Message
import BuildProgress.Metrics
import BuildProgress.Path
import BuildProgress.Request
import BuildProgress.Response
import BuildProgress.Response.Reader
import BuildProgress.Session
import BuildProgress.Settings
import BuildProgress.Sha256
import BuildProgress.SocketAddress
import BuildProgress.Submission
import BuildProgress.Table
import BuildProgress.Text.Blank
import BuildProgress.Text.Decimal
import BuildProgress.Text.Hidden
import BuildProgress.Text.Lines
import BuildProgress.Text.Quoted
import BuildProgress.Text.Shortest
import BuildProgress.Text.Utf8
import BuildProgress.Transcript.Basic
import BuildProgress.Transcript.Style
import BuildProgress.Translator
import BuildProgress.Wire.Record
import BuildProgress.Wire.Status
import BuildProgress.Proofs.Graph.Cycle
import BuildProgress.Proofs.Graph.Display
import BuildProgress.Proofs.Graph.Order
import BuildProgress.Proofs.Graph.Earliest
import BuildProgress.Proofs.Graph.Sorting
import BuildProgress.Proofs.Graph.Stages
import BuildProgress.Proofs.Graph.Classes
import BuildProgress.Proofs.Graph.Independent
import BuildProgress.Proofs.Delivery
import BuildProgress.Proofs.Guard
import BuildProgress.Proofs.Script
import BuildProgress.Proofs.Tracer.Move
import BuildProgress.Proofs.Tracer.Trace
import BuildProgress.Proofs.Lifecycle
import BuildProgress.Proofs.Tracer.Lifecycle
import BuildProgress.Proofs.Tracer.Numbering
import BuildProgress.Proofs.Replay
import BuildProgress.Proofs.Tracer.Restart
import BuildProgress.Proofs.Telling
import BuildProgress.Proofs.Legacy.Telling
import BuildProgress.Proofs.Legacy.OneStep
import BuildProgress.Proofs.Translator.Scripted
import BuildProgress.Proofs.Translator.Abort
import BuildProgress.Proofs.Translator.Cancel
import BuildProgress.Proofs.Ends
import BuildProgress.Proofs.Translator.Unseen
import BuildProgress.Proofs.Legacy.Verdict
import BuildProgress.Proofs.Tracer.Verdict
import BuildProgress.Proofs.Translator.Verdict
import BuildProgress.Proofs.Translator.Outcome
import BuildProgress.Proofs.Translator.Failure
import BuildProgress.Proofs.Transcript
import BuildProgress.Proofs.Translator.Shown
import BuildProgress.Proofs.Transcript.Pieces
import BuildProgress.Proofs.Transcript.Introductions
import BuildProgress.Proofs.Translator.Announced
import BuildProgress.Proofs.Transcript.Tally
import BuildProgress.Proofs.Translator.Finishes
import BuildProgress.Proofs.Graph.Renaming
import BuildProgress.Proofs.Tracer.Renaming
import BuildProgress.Proofs.Base64
import BuildProgress.Proofs.Text.Utf8
import BuildProgress.Proofs.Wire.Record
import BuildProgress.Proofs.Wire.Unknown
import BuildProgress.Proofs.Wire.Padded
import BuildProgress.Proofs.Wire.Field
import BuildProgress.Proofs.Wire.Message
import BuildProgress.Proofs.Wire.Plain
import BuildProgress.Proofs.Wire.Roundtrip
import BuildProgress.Proofs.Build.Group
import BuildProgress.Proofs.Build.Pipeline
import BuildProgress.Proofs.Build.Run
import BuildProgress.Proofs.Text.Digits
import BuildProgress.Proofs.Text.Lines
import BuildProgress.Proofs.Text.Ascii
import BuildProgress.Proofs.Json.Scalar
import BuildProgress.Proofs.Json.Compact
import BuildProgress.Proofs.Json.Plain
import BuildProgress.Proofs.Json.Printable
import BuildProgress.Proofs.Json.Record
import BuildProgress.Proofs.Message
import BuildProgress.Proofs.Response.Reader
import BuildProgress.Proofs.Response.Lines
import BuildProgress.Proofs.Response.Transcribed
import BuildProgress.Proofs.Response.Joined
import BuildProgress.Proofs.SocketAddress
import BuildProgress.Proofs.Json.Lines
import BuildProgress.Proofs.FileTree
import BuildProgress.Proofs.Settings
import BuildProgress.Proofs.Tracer.Effect
import BuildProgress.Proofs.Tracer.Repeated
import BuildProgress.Proofs.Legacy.Line
import BuildProgress.Proofs.Legacy.Output
import BuildProgress.Proofs.Translator.Rejection
import BuildProgress.Proofs.Transcript.Lockstep
import BuildProgress.Proofs.Transcript.Cutoff
import BuildProgress.Proofs.Transcript.Colors
import BuildProgress.Proofs.Path
import BuildProgress.Proofs.Canonical
import BuildProgress.Proofs.Request
import BuildProgress.Proofs.Credential
import BuildProgress.Proofs.Graph.StageName
import BuildProgress.Proofs.Text.Chunks
import BuildProgress.Proofs.Tracer.Output
import BuildProgress.Proofs.Graph.Countdown
