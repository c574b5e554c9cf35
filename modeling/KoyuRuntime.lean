import KoyuRuntime.Theory.OrderedDict
import KoyuRuntime.Theory.BoundedQueue
import KoyuRuntime.Theory.Sift
import KoyuRuntime.Theory.Positions
import KoyuRuntime.Theory.Transition
import KoyuRuntime.Theory.Raising
import KoyuRuntime.Theory.OrderedChecks
import KoyuRuntime.Theory.DirTree
import KoyuRuntime.Theory.DirTreeFrame
import KoyuRuntime.Theory.DirTreeWays
import KoyuRuntime.Host.Json
import KoyuRuntime.Host.Dynamic
import KoyuRuntime.Host.Decimal
import KoyuRuntime.Host.Uuid
import KoyuRuntime.Host.Calendar
import KoyuRuntime.Host.Paths
import KoyuRuntime.Host.Shlex
import KoyuRuntime.Host.Pairs
import KoyuRuntime.Host.Ini
import KoyuRuntime.Host.Yaml
import KoyuRuntime.Host.Text
import KoyuRuntime.Ipc.Blackboard
import KoyuRuntime.Services.Inbox
import KoyuRuntime.Services.InboxProtocol.Steps
import KoyuRuntime.Services.InboxProtocol.Directory
import KoyuRuntime.Services.InboxProtocol.Books
import KoyuRuntime.Services.InboxProtocol.Delivery
import KoyuRuntime.Services.EpisodeSchema
import KoyuRuntime.Services.DataRecorder.Sources
import KoyuRuntime.Services.DataRecorder.Finalize
import KoyuRuntime.Services.DataRecorder.Shell
import KoyuRuntime.Services.DataRecorder.Run
import KoyuRuntime.Services.DataRecorder.Effects
import KoyuRuntime.Services.DataRecorder.Steps
import KoyuRuntime.Services.DataRecorder.Jobs
import KoyuRuntime.Services.DataRecorder.Tracking
import KoyuRuntime.Services.DataRecorder.Alignment
import KoyuRuntime.Services.DataRecorder.ClockStep
import KoyuRuntime.Services.DataRecorder.Deferral
import KoyuRuntime.Services.DataRecorder.IdleFrames
import KoyuRuntime.Services.DataRecorder.Bundle
import KoyuRuntime.Services.DataRecorder.Recordings
import KoyuRuntime.Services.DataRecorder.BundleName
import KoyuRuntime.Services.DataRecorder.VerdictMerge
import KoyuRuntime.Services.DataRecorder.Lifecycle
import KoyuRuntime.Services.DataRecorder.Verdicts
import KoyuRuntime.Services.DataRecorder.Ledger
import KoyuRuntime.Services.DataRecorder.Attribution
import KoyuRuntime.Services.DataRecorder.Isolation
import KoyuRuntime.Services.DataRecorder.RowCap
import KoyuRuntime.Services.DataRecorder.Lockstep
import KoyuRuntime.Services.DataRecorder.Atomicity
import KoyuRuntime.Services.DataRecorder.RateLaw
import KoyuRuntime.Services.DataRecorder.StartRate
import KoyuRuntime.Services.DataRecorder.Fps
import KoyuRuntime.Services.ParamServer.Server
import KoyuRuntime.Services.ParamServer.Judgement
import KoyuRuntime.Services.ParamServer.Totality
import KoyuRuntime.Services.ParamServer.Persistence
import KoyuRuntime.Services.ParamServer.Publishing
import KoyuRuntime.Services.ParamServer.RangeSafety
import KoyuRuntime.Services.ParamServer.ReadBack
import KoyuRuntime.Ipc.Types
import KoyuRuntime.Ipc.Checks
import KoyuRuntime.Ipc.LayoutText
import KoyuRuntime.Ipc.Declarations
import KoyuRuntime.Warden.Services
import KoyuRuntime.Warden.Validation
import KoyuRuntime.Warden.ConfGenerator
import KoyuRuntime.Warden.ConfReader
import KoyuRuntime.Warden.CommandLine
import KoyuRuntime.Warden.EnvironmentLine
import KoyuRuntime.Warden.ConfStructure
import KoyuRuntime.Warden.SupervisordClient
import KoyuRuntime.Theory.Threads
import KoyuRuntime.Theory.RotatingLog
import KoyuRuntime.Host.JsonDump
import KoyuRuntime.Host.JsonScan
import KoyuRuntime.Host.JsonTokens
import KoyuRuntime.Host.JsonRoundTrip
import KoyuRuntime.Warden.Boot
import KoyuRuntime.Warden.BootGate
import KoyuRuntime.Warden.BootCalm
import KoyuRuntime.Warden.BootAlone
import KoyuRuntime.Warden.Redeploy
import KoyuRuntime.Services.IpcReaders.Walkers
import KoyuRuntime.Services.IpcReaders.Agreement
import KoyuRuntime.Services.FrameIds
import KoyuRuntime.Services.DataRecorder.Telemetry
import KoyuRuntime.Services.PublishOnChange
import KoyuRuntime.Services.DataRecorder.Features
import KoyuRuntime.Services.DataRecorder.SharedTopics
import KoyuRuntime.Services.DataRecorder.PairCache
import KoyuRuntime.Services.IpcLogger.FrameRing
import KoyuRuntime.Services.IpcLogger.RingSuffix
import KoyuRuntime.Services.IpcLogger.Service
import KoyuRuntime.Services.IpcLogger.Opened
import KoyuRuntime.Services.IpcLogger.Records
import KoyuRuntime.Services.IpcLogger.Tail
import KoyuRuntime.Services.InboxRouting
import KoyuRuntime.Services.Bridge.Isolation
import KoyuRuntime.Services.Bridge.Camera
import KoyuRuntime.Services.Bridge.CameraFrames
import KoyuRuntime.Services.Bridge.CameraAlone
import KoyuRuntime.Services.Bridge.CameraSlots
import KoyuRuntime.Cli.Context
import KoyuRuntime.Cli.ContextEdits
import KoyuRuntime.Cli.ContextCommands
import KoyuRuntime.Services.DataRecorder.Outbox
import KoyuRuntime.Services.InboxProtocol.Texts
import KoyuRuntime.Services.ParamServer.Texts
import KoyuRuntime.Services.Bridge.ContextPage
import KoyuRuntime.Ipc.Node
import KoyuRuntime.Ipc.WriterSlot
import KoyuRuntime.Ipc.Service
import KoyuRuntime.Services.DataRecorder.Process
