import Voytty.Lib.Utf8
import Voytty.Lib.Text
import Voytty.Lib.Patch
import Voytty.Lib.Transition
import Voytty.Lib.OrdMap
import Voytty.Lib.Base64
import Voytty.Lib.Fifo
import Voytty.Core.Domain
import Voytty.Proto.Frame
import Voytty.Terminal.Colors
import Voytty.Terminal.Surface
import Voytty.Terminal.ColorState
import Voytty.Terminal.Engine
import Voytty.Terminal.Projection
import Voytty.Terminal.Effects
import Voytty.Terminal.Ingress
import Voytty.Terminal.Replies
import Voytty.Terminal.Containment
import Voytty.Terminal.Admission
import Voytty.Terminal.Model
import Voytty.Terminal.History
import Voytty.Terminal.Runs
import Voytty.Terminal.Convergence
import Voytty.Terminal.Publication
import Voytty.Terminal.ReplyRuns
import Voytty.Terminal.Driver
import Voytty.Terminal.HistoryEpochs
import Voytty.Daemon.Replay
import Voytty.Daemon.ReplayRuns
import Voytty.Daemon.Store
import Voytty.Daemon.CommandGate
import Voytty.Daemon.Authorization
import Voytty.Daemon.AuthorizationRuns
import Voytty.Daemon.AuthorizationClosed
import Voytty.Client.RemoteUnary
import Voytty.Client.RemoteMutations
import Voytty.Lib.Numbered
import Voytty.Core.ViewportCache
import Voytty.Core.ViewportCacheSteps
import Voytty.Core.ViewportCacheRows
import Voytty.Daemon.SurfaceFrames
import Voytty.Proto.Framing
import Voytty.Lib.Owned
import Voytty.Daemon.SessionRegistry
import Voytty.Daemon.SessionRegistryRuns
import Voytty.Daemon.SessionActor
import Voytty.Daemon.SessionActorSteps
import Voytty.Daemon.SnapshotFence
import Voytty.Daemon.CandidateRegistry
import Voytty.Daemon.PromoteCandidate
import Voytty.Daemon.CommandReports
import Voytty.Lib.PrefixCode
import Voytty.Lib.Incremental
import Voytty.Core.Pairing
import Voytty.Daemon.ResumeCheckpoint
import Voytty.Daemon.ResumeIsolation
import Voytty.Cli.HostInput
import Voytty.Cli.HostInputChunks
import Voytty.Cli.HostInputStreams
import Voytty.Cli.KeyLifecycles
import Voytty.Cli.Keyboard
import Voytty.Cli.Scrollbar
import Voytty.Client.UploadPaste
import Voytty.Daemon.EffectOwnership
import Voytty.Core.DeviceAlias
import Voytty.Daemon.AliasReservations
import Voytty.Lib.StreamDecoder
import Voytty.Proto.Compression
import Voytty.Daemon.Shutdown
import Voytty.Core.ViewportPosition
import Voytty.Terminal.HistoryShapes
import Voytty.Terminal.Acceptance
import Voytty.Terminal.ProjectedText
import Voytty.Core.PageStore
import Voytty.Core.ViewportQueries
import Voytty.Terminal.ColorStack
import Voytty.Terminal.GroundText
import Voytty.Terminal.NumericGrammars
import Voytty.Terminal.HistoryAnswers
import Voytty.Lib.Fair
import Voytty.Daemon.ByteQueue
import Voytty.Daemon.PeerRestart
import Voytty.Daemon.DemandLeases
import Voytty.Lib.Dictionary
import Voytty.Terminal.LinkTable
import Voytty.Proto.TerminalLinks
import Voytty.Daemon.SessionUpdates
