import Cassobee.Proofs.Stalling
import Cassobee.Proofs.Rpc
import Cassobee.Proofs.RpcTimeout
import Cassobee.Proofs.Reactor
import Cassobee.Proofs.Schedule
import Cassobee.Proofs.Links
import Cassobee.Proofs.ConnectionPool
import Cassobee.Proofs.Frames
import Cassobee.Proofs.Closing
import Cassobee.Proofs.SessionManager
import Cassobee.Proofs.LockfreePool
import Cassobee.Proofs.Stranding
import Cassobee.Proofs.Relay
import Cassobee.Proofs.Lifetime
import Cassobee.Proofs.Pending
import Cassobee.Proofs.HttpServer
import Cassobee.Proofs.HttpProtocol
import Cassobee.Proofs.HttpLines
import Cassobee.Proofs.LeftRight
import Cassobee.Proofs.LrContainers
import Cassobee.Proofs.DoubleBuffer
import Cassobee.Proofs.Threadpool
import Cassobee.Proofs.Deletion
import Cassobee.Proofs.Truncation
import Cassobee.Proofs.Guards
import Cassobee.Proofs.Transactions
import Cassobee.Proofs.Overwriting
import Cassobee.Proofs.ReactorTimers
import Cassobee.Proofs.HttpTermination
import Cassobee.Proofs.HttpChunks
import Cassobee.Proofs.HttpConnections
import Cassobee.Proofs.HttpCuts
import Cassobee.Proofs.HttpCursor
import Cassobee.Proofs.Draining
import Cassobee.Proofs.Progen
import Cassobee.Proofs.XmlProcessor
import Cassobee.Proofs.Util
import Cassobee.Proofs.HttpParams
import Cassobee.Proofs.UriPrinting
import Cassobee.Proofs.CommandLine
import Cassobee.Proofs.HttpHeaders
import Cassobee.Proofs.Command
import Cassobee.Proofs.Completion
import Cassobee.Proofs.Cmysql
import Cassobee.Proofs.FixedBuffer
import Cassobee.Proofs.LogAppender
import Cassobee.Proofs.LogFormatter
import Cassobee.Proofs.Logger
import Cassobee.Proofs.Ostringstream
import Cassobee.Proofs.Config
import Cassobee.Proofs.TrafficShaper
import Cassobee.Proofs.TicketSpinlock
import Cassobee.Proofs.ConcurrentDoubleBuffer
import Cassobee.Proofs.CleanDefault
import Cassobee.Proofs.Delegate
import Cassobee.Proofs.BlockList
import Cassobee.Proofs.OctetsObjects
import Cassobee.Proofs.PoolDestruction
import Cassobee.Proofs.Link
import Cassobee.Proofs.Flushing
import Cassobee.Proofs.LeftRightCalls
import Cassobee.Proofs.LockfreeStack
import Cassobee.Proofs.Spinlock
import Cassobee.Proofs.RpcLink
import Cassobee.Proofs.ReactorEvents
import Cassobee.Proofs.ProtocolVersions
import Cassobee.Proofs.AsyncThreadpool
import Cassobee.Proofs.ServerManager
