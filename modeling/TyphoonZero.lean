import TyphoonZero.AOIOwnership
import TyphoonZero.AOIAgreement
import TyphoonZero.AlignedStrings
import TyphoonZero.PackedAppend
import TyphoonZero.EventGuard
import TyphoonZero.CoordinateDestroy
import TyphoonZero.WatcherNodes
import TyphoonZero.CoordinateCrossings
import TyphoonZero.CoordinateStored
import TyphoonZero.LinearBuffer
import TyphoonZero.MPMCQueue
import TyphoonZero.RankNamedOrder
import TyphoonZero.TcpSend
import TyphoonZero.CircularQueueRun
import TyphoonZero.UserTimerSilent
import TyphoonZero.UserTimerRestart
import TyphoonZero.AsyncLoggerShutdown
import TyphoonZero.NetSessionStop
import TyphoonZero.NetRegistry
import TyphoonZero.NetReconnect
import TyphoonZero.NetServerStop
import TyphoonZero.XlsxColumns
import TyphoonZero.XlsxMatch
import TyphoonZero.XlsxTypeTag
import TyphoonZero.XlsxHeader
import TyphoonZero.DataHubKeys
import TyphoonZero.Tokenize
import TyphoonZero.Tokenizer
import TyphoonZero.ByteBufferCopy
import TyphoonZero.ByteBufferReposition
import TyphoonZero.BackPatch
import TyphoonZero.LinkedListAgreement
import TyphoonZero.MessageBufferStream
import TyphoonZero.LinearBufferMax
import TyphoonZero.ReadsApart
import TyphoonZero.PackedTime
import TyphoonZero.Utf8Strings
import TyphoonZero.Trim
import TyphoonZero.Deferred
import TyphoonZero.DailyFileRun
import TyphoonZero.Config
import TyphoonZero.XlsxNumber
import TyphoonZero.XlsxSignTable
import TyphoonZero.NetStartFailed
import TyphoonZero.NetLifecycle
import TyphoonZero.ReconnectTimer
import TyphoonZero.SilenceTimer
import TyphoonZero.CustomAllocator
import TyphoonZero.RpcConnection
import TyphoonZero.RpcRoundTrip
import TyphoonZero.ChatDelivery
import TyphoonZero.LogLevels
import TyphoonZero.IoPoolRuns
