import Zem.Library.Runs
import Zem.Library.Settling
import Zem.Library.Hysteresis
import Zem.Library.BigEndian
import Zem.Library.Framing
import Zem.Library.Coroutine
import Zem.Library.Outbox
import Zem.Library.CString
import Zem.Library.Conninfo
import Zem.Library.SlotPool
import Zem.Library.RefCount
import Zem.Protocol.Header
import Zem.Protocol.ByteCodec
import Zem.Protocol.Scalar
import Zem.Protocol.SpanReader
import Zem.Protocol.Schema
import Zem.Protocol.WriterCalls
import Zem.Protocol.Frame
import Zem.Db.PostgresRepositoryFactory
import Zem.App.AppContext
import Zem.Login.Codec
import Zem.Login.Handler
import Zem.Login.Contract
import Zem.Db.PostgresAccountRepository
import Zem.Db.Leases
import Zem.Db.Calls
import Zem.Session.TCPSession
import Zem.Session.Writer
import Zem.Session.Gather
import Zem.Session.Backpressure
import Zem.Session.OutputStream
import Zem.Session.ReadLoop
import Zem.Session.Heartbeat
import Zem.Session.IdleBound
import Zem.Session.Strand
import Zem.Session.Dialogue
import Zem.Session.HandlerClose
import Zem.Session.ResumeRead
import Zem.Session.OpenStep
import Zem.Session.FlowControl
import Zem.Session.Footprint
import Zem.Session.Settle
import Zem.Session.AtRest
import Zem.Session.Replies
import Zem.Session.Emission
import Zem.Server.Server
import Zem.Server.AcceptLoop
import Zem.Server.Registry
import Zem.Server.ControlBlock
import Zem.Server.Bookkeeping
import Zem.Server.Stopping
import Zem.Server.Workload
import Zem.Server.TCPServer
import Zem.Server.AtRest
import Zem.Server.Shutdown
import Zem.Server.Asking
import Zem.App.Backend
import Zem.App.Lifecycle
import Zem.Session.Timed
