
import Loraterm.Outbound
import Loraterm.Backlog
import Loraterm.Config
import Loraterm.Sse
import Loraterm.Pty
import Loraterm.Session
import Loraterm.SessionSteps
import Loraterm.SessionSound
import Loraterm.Daemon
import Loraterm.DaemonSteps
import Loraterm.TrustBoundary
import Loraterm.SingleSession
import Loraterm.CharacterCut
import Loraterm.ChunkLoss
import Loraterm.ChunkSize
import Loraterm.ChunkerBurst
import Loraterm.SessionProgress
import Loraterm.InputOrder
import Loraterm.LiveHandles
import Loraterm.AcceptedTexts
import Loraterm.Deadlock
import Loraterm.Farewell
import Loraterm.EventFeed
import Loraterm.ChannelMessage
import Loraterm.WhitelistLoad
import Loraterm.ChunkerCalls
import Loraterm.ChunkerCuts
import Loraterm.Library.Utf8Codec
import Loraterm.EscapeStripper
import Loraterm.CarriageReturn
import Loraterm.ReadBoundaries
import Loraterm.SilenceCuts
import Loraterm.Numbering
import Loraterm.Quota
import Loraterm.ConfigSafety
import Loraterm.Library.Pacing
import Loraterm.SendRate
import Loraterm.Library.RunCut
import Loraterm.BlankLines
import Loraterm.Library.MapDiff
import Loraterm.WhitelistDiff
import Loraterm.SplitPieces
import Loraterm.ShortLines
import Loraterm.HotReload
import Loraterm.Library.Retry
import Loraterm.Library.WatchChannel
import Loraterm.SseStream
import Loraterm.StreamRetry
import Loraterm.StreamOrder
import Loraterm.StreamShutdown
import Loraterm.Process
import Loraterm.PeerOrder
import Loraterm.ProcessProgress
import Loraterm.HangupReload
import Loraterm.ProcessEnd
import Loraterm.ProcessCauses
import Loraterm.PtyFlow
import Loraterm.OutputPipeline
import Loraterm.PeerIsolation
import Loraterm.GlobalRate
import Loraterm.SessionReasons
import Loraterm.Client
import Loraterm.Startup
import Loraterm.Requests
