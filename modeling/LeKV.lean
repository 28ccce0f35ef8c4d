import LeKV.Cli.Commands
import LeKV.Cli.Deployment
import LeKV.Cli.LekvCli
import LeKV.Cli.LekvClient
import LeKV.Cli.MixedSessions
import LeKV.Cli.PythonCalls
import LeKV.Cli.PythonClient
import LeKV.Cli.PythonFrames
import LeKV.Cli.PythonHistory
import LeKV.Cli.Responses
import LeKV.Cli.RouteTable
import LeKV.Cli.Sessions
import LeKV.Common
import LeKV.Common.BitCeil
import LeKV.Kv.Actions
import LeKV.Kv.BalancerLoop
import LeKV.Kv.Bookkeeping
import LeKV.Kv.Clients
import LeKV.Kv.Cluster
import LeKV.Kv.Convergence
import LeKV.Kv.Counts
import LeKV.Kv.CrashPoints
import LeKV.Kv.CrashSafety
import LeKV.Kv.DataNode
import LeKV.Kv.DeletedKeys
import LeKV.Kv.Environment
import LeKV.Kv.FreshCount
import LeKV.Kv.Healthy
import LeKV.Kv.Identity
import LeKV.Kv.Interleaving
import LeKV.Kv.LateReplies
import LeKV.Kv.Lifecycle
import LeKV.Kv.Loads
import LeKV.Kv.LostWrites
import LeKV.Kv.Master
import LeKV.Kv.MigrationSafety
import LeKV.Kv.NoStorage
import LeKV.Kv.OneMap
import LeKV.Kv.Ownership
import LeKV.Kv.Persist
import LeKV.Kv.Provenance
import LeKV.Kv.PutSession
import LeKV.Kv.Quiet
import LeKV.Kv.RangeDeletion
import LeKV.Kv.RangeRequests
import LeKV.Kv.Readers
import LeKV.Kv.Rebalance
import LeKV.Kv.RequestChecks
import LeKV.Kv.RequestPairing
import LeKV.Kv.Requests
import LeKV.Kv.Restart
import LeKV.Kv.RouteReply
import LeKV.Kv.Routing
import LeKV.Kv.SavedTable
import LeKV.Kv.ScanCover
import LeKV.Kv.ScanReply
import LeKV.Kv.ScanTransfer
import LeKV.Kv.Shards
import LeKV.Kv.SplitSweep
import LeKV.Kv.Stores
import LeKV.Kv.Tiling
import LeKV.Kv.Transfer
import LeKV.Kv.TransferStatistics
import LeKV.Kv.Visits
import LeKV.Kv.Workers
import LeKV.Lib.BitSmear
import LeKV.Lib.ByteString
import LeKV.Lib.Descriptors
import LeKV.Lib.Effects
import LeKV.Lib.FreshIds
import LeKV.Lib.Halving
import LeKV.Lib.Histories
import LeKV.Lib.InputStream
import LeKV.Lib.Interference
import LeKV.Lib.KeySpace
import LeKV.Lib.Lines
import LeKV.Lib.Monitor
import LeKV.Lib.OrderedCode
import LeKV.Lib.Potential
import LeKV.Lib.RangeCover
import LeKV.Lib.RingBuffer
import LeKV.Lib.Search
import LeKV.Lib.Sharding
import LeKV.Lib.SortedMap
import LeKV.Lib.Text
import LeKV.Lib.Utf8
import LeKV.Logger.IdleQueue
import LeKV.Logger.SpscQueue
import LeKV.Rpc.BinaryProtocol
import LeKV.Rpc.Connection
import LeKV.Rpc.Descriptors
import LeKV.Rpc.IllegalFrames
import LeKV.Rpc.Leftover
import LeKV.Rpc.Pairing
import LeKV.Rpc.Reassembly
import LeKV.Rpc.Server
import LeKV.Rpc.Stream
import LeKV.Rpc.TextProtocol
import LeKV.Rpc.TextServer
import LeKV.Storage.Steps
import LeKV.Storage.StorageEngine
