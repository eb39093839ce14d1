import GayRpc.Lib.Bytes
import GayRpc.Lib.Framing
import GayRpc.Lib.Automaton
import GayRpc.Lib.Channel
import GayRpc.Core.Meta
import GayRpc.Core.Error
import GayRpc.Protocol.Reader
import GayRpc.Protocol.Binary
import GayRpc.Protocol.Inner
import GayRpc.Protocol.Frame
import GayRpc.Protocol.Stream
import GayRpc.Lib.Prog
import GayRpc.Lib.Trace
import GayRpc.Core.Interceptor
import GayRpc.Utils.Interceptor
import GayRpc.Utils.Wrapper
import GayRpc.Core.Helper
import GayRpc.Core.TypeHandler
import GayRpc.Lib.Budget
import GayRpc.Core.Client
import GayRpc.Client.Pending
import GayRpc.Client.AtMostOnce
import GayRpc.Lib.Duty
import GayRpc.Client.Lost
import GayRpc.Lib.Guarantee
import GayRpc.Lib.RunsTo
import GayRpc.Connection.Basic
import GayRpc.Client.Owner
import GayRpc.Connection.Routing
import GayRpc.Connection.Timers
import GayRpc.Connection.Delivery
import GayRpc.Lib.Sequel
import GayRpc.Core.Reply
import GayRpc.Core.Service
import GayRpc.Service.ErrorReply
import GayRpc.Lib.Finmap
import GayRpc.Lib.Wire
import GayRpc.Lib.Base128
import GayRpc.Core.MetaMessage
import GayRpc.Core.MetaRuntime
import GayRpc.Core.MetaWire
import GayRpc.Duplex.Code
import GayRpc.Duplex.Line
import GayRpc.Lib.Ledger
import GayRpc.Duplex.Basic
import GayRpc.Duplex.Record
import GayRpc.Duplex.Programs
import GayRpc.Duplex.EndToEnd
import GayRpc.Lib.Journey
import GayRpc.Duplex.Life
import GayRpc.Duplex.Passage
import GayRpc.Duplex.Forwarding
import GayRpc.Service.ReplyFlags
import GayRpc.Duplex.Completion
import GayRpc.Lib.LastWord
import GayRpc.Service.Responses
import GayRpc.Core.Chain
import GayRpc.Core.Retry
import GayRpc.Client.Sweep
import GayRpc.Lib.InTurn
import GayRpc.Lib.Endings
import GayRpc.Lib.Lockstep
import GayRpc.Client.Expiry
import GayRpc.Client.Agreement
import GayRpc.Client.Sync
import GayRpc.Lib.Custody
import GayRpc.Connection.Stranded
import GayRpc.Client.Early
import GayRpc.Client.Overdue
import GayRpc.Utils.EventLoop
import GayRpc.Utils.Transparent
import GayRpc.Utils.Outcomes
import GayRpc.Protocol.Http
import GayRpc.Http.Responses
import GayRpc.Core.FlatMap
import GayRpc.Http.Dispatch
import GayRpc.Service.Lifecycle
import GayRpc.Http.Exceptions
import GayRpc.Client.Representation
import GayRpc.Client.Throwing
import GayRpc.Client.Sections
import GayRpc.Lib.Locks
import GayRpc.Process.Basic
import GayRpc.Process.Reentrancy
import GayRpc.Process.Client
import GayRpc.Lib.Machine
import GayRpc.Process.Protection
import GayRpc.Process.Threads
