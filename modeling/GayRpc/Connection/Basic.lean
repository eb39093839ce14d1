import GayRpc.Core.Client
import GayRpc.Core.TypeHandler
import GayRpc.Lib.Guarantee
import GayRpc.Lib.RunsTo
import GayRpc.Utils.Interceptor

/-!
# Clients that share a connection

Any number of clients on one `RpcTypeHandleManager` and one event loop. The clients have names of
type `ι`, and `ids` gives the service id that the generated class of each has. What is registered as
the handler of responses is the name of the client.

    create       a client is made, and its handler registered, or not, if the id is taken
    request      a call of a client, through its outbound chain
    respond      the peer answers a request that was issued
    expire       a timer of the event loop goes off
    uninstall    the handler under the id of a client is removed, whoever has registered it

`connectionWorld` lets any of these start at any time, side by side with those under way. A run shows the
events of all clients, each with its cause, so that it can be asked of a callback that is run what has
brought it about.

A callback of the user returns or throws, or is empty, and does nothing else here by itself: what it does
besides, such as another call, is one of the operations that may be started at any time.
-/

namespace GayRpc

/-- What makes a client run: it is called, a response to a request of a client arrives, or the timer
of a request goes off. -/
inductive Cause (ι : Type) where
  | call
  | response (client : ι) (sequenceID : UInt64)
  | expiry (client : ι) (seqID : UInt64)

inductive ConnectionEvent (ι Msg : Type) where
  /-- the handler that a client registered is called -/
  | handled (cause : Cause ι) (client : ι)
  /-- something a client shows -/
  | client (cause : Cause ι) (client : ι) (e : ClientEvent Msg)

/-- What the threads of a connection share. `uninstalled` tells on which clients `uninstall` has been
called; the program does not look at it. -/
structure Connection (queue : PriorityQueue WaitResponseTimer WaitResponseTimer.le)
    (ι D H T U : Type) where
  manager : RpcTypeHandleManager ι := {}
  clients : Finmap fun _ : ι => BaseClient queue D H T := ∅
  uninstalled : Set ι := ∅
  clock : Int64
  eventLoop : EventLoop ι U

/-- The code of the user around a connection; of the callbacks, how they end. -/
structure ConnectionCode (ι D H T Msg Ctx U : Type) where
  codec : MessageCodec D Msg
  inbound : ι → UnaryServerInterceptor (EventLoop ι U) Empty Msg Ctx
  outbound : ι → UnaryServerInterceptor (EventLoop ι U) Empty Msg Ctx
  emptyContext : Ctx
  handle : H → Msg → Option RpcError → Except Exn Unit
  timeout : T → Except Exn Unit

section operations

variable {queue : PriorityQueue WaitResponseTimer WaitResponseTimer.le} {ι D H T Msg Ctx U : Type}
  [DecidableEq ι]

abbrev ConnectionProg (queue : PriorityQueue WaitResponseTimer WaitResponseTimer.le)
    (ι D H T Msg U : Type) : Type :=
  Prog (Connection queue ι D H T U) (ConnectionEvent ι Msg) Empty Empty (Except Exn Unit)

namespace Connection

/-- What a client of the connection sees of it; nothing before it is created. -/
def host? (i : ι) (s : Connection queue ι D H T U) : Option (Host queue D H T (EventLoop ι U)) :=
  (s.clients.lookup i).map fun c => { client := c, clock := s.clock, user := s.eventLoop }

def setHost (i : ι) (s : Connection queue ι D H T U) (h : Host queue D H T (EventLoop ι U)) :
    Connection queue ι D H T U :=
  { s with clients := s.clients.insert i h.client, clock := h.clock, eventLoop := h.user }

/-- The client was created, and `uninstall` was not called on it. -/
def Installed (i : ι) (s : Connection queue ι D H T U) : Prop :=
  i ∈ s.clients ∧ i ∉ s.uninstalled

def issued (i : ι) (q : UInt64) (s : Connection queue ι D H T U) : Bool :=
  (s.clients.lookup i).any fun c => q.toNat < c.mSequenceID

def stub (i : ι) (q : UInt64) (s : Connection queue ι D H T U) : Option (ResponseStub D H) :=
  (s.clients.lookup i).bind fun c => c.mStubHandleMap.lookup q

def timeoutCallback (i : ι) (q : UInt64) (s : Connection queue ι D H T U) :
    Option (TimeoutCallback T) :=
  (s.clients.lookup i).bind fun c => c.mTimeoutHandleMap.lookup q

def Pending (i : ι) (q : UInt64) (s : Connection queue ι D H T U) : Prop :=
  (s.stub i q).isSome ∨ (s.timeoutCallback i q).isSome

def fresh (clock : Int64) (user : U) : Connection queue ι D H T U :=
  { clock := clock, eventLoop := { user := user } }

end Connection

def ConnectionCode.client (code : ConnectionCode ι D H T Msg Ctx U) (i : ι) :
    ClientCode D H T Msg Ctx (EventLoop ι U) where
  codec := code.codec
  inbound := code.inbound i
  outbound := code.outbound i
  emptyContext := code.emptyContext
  handle handle message error := .ret (code.handle handle message error)
  timeout callback := .ret (code.timeout callback)

def onClient (cause : Cause ι) (i : ι) (p : ClientProg queue D H T Msg (EventLoop ι U)) :
    ConnectionProg queue ι D H T Msg U :=
  p.within (Connection.host? i) (Connection.setHost i) (.client cause i)

/-- The call of the handler that was looked up, one that `installResponseStub` has registered. -/
def callHandler (code : ConnectionCode ι D H T Msg Ctx U) (cause : Cause ι) (rpcMeta : RpcMeta)
    (data : StringView) (context : Ctx) : Except Exn ι → ConnectionProg queue ι D H T Msg U
  | .error e => .ret (.error e)
  | .ok i =>
    .emit (.handled cause i)
      (onClient cause i (processRpcResponse (code.client i) rpcMeta data context))

/-- `RpcTypeHandleManager::handleRpcMsg`. The lock it holds is left out: it keeps registrations away,
which here may happen at any time. -/
def Connection.handleRpcMsg (code : ConnectionCode ι D H T Msg Ctx U) (cause : Cause ι)
    (rpcMeta : RpcMeta) (data : StringView) (context : Ctx) : ConnectionProg queue ι D H T Msg U :=
  .act some fun s => callHandler code cause rpcMeta data context (s.manager.handleRpcMsg rpcMeta)

/-- `Create`: a new client, on which `installResponseStub` has been called, whatever came of that. -/
def create (ids : ι → UInt32) (i : ι) : ConnectionProg queue ι D H T Msg U :=
  -- a client is created once; whether the id was free is not looked at
  .act (fun s =>
      if i ∈ s.clients then none
      else
        some { s with
          clients := s.clients.insert i {}
          manager := (s.manager.registerTypeHandle .response i (ids i)).2 })
    fun _ => .ret (.ok ())

def uninstall (ids : ι → UInt32) (i : ι) : ConnectionProg queue ι D H T Msg U :=
  .act (fun s =>
      if i ∈ s.clients then
        some { s with
          manager := s.manager.removeTypeHandle .response (ids i)
          uninstalled := insert i s.uninstalled }
      else none)
    fun _ => .ret (.ok ())

def request (ids : ι → UInt32) (code : ConnectionCode ι D H T Msg Ctx U) (i : ι)
    (r : CallRequest D H T Msg) : ConnectionProg queue ι D H T Msg U :=
  onClient .call i (call (code.client i) { r with serviceID := ids i })

def respond (code : ConnectionCode ι D H T Msg Ctx U) (i : ι) (rpcMeta : RpcMeta) (data : StringView)
    (context : Ctx) : ConnectionProg queue ι D H T Msg U :=
  let q := rpcMeta.responseInfo.sequenceId
  (Connection.handleRpcMsg code (.response i q) rpcMeta data context).onlyIf
    fun s => s.issued i q = true

def expire (code : ConnectionCode ι D H T Msg Ctx U) (timer : EventLoopTimer ι) :
    ConnectionProg queue ι D H T Msg U :=
  .act (fun s =>
      if timer ∈ s.eventLoop.timers then
        some { s with eventLoop := { s.eventLoop with timers := s.eventLoop.timers.erase timer } }
      else none)
    fun _ =>
      -- `causeTimeout` gets the id of the call and not its client
      causeTimeout (Connection.handleRpcMsg code (.expiry timer.owner timer.seqID)) timer.seqID
        code.emptyContext

/-- What may happen on a connection at any time. A response carries the service id of the request it
answers. -/
inductive ConnectionOperation (ids : ι → UInt32) (code : ConnectionCode ι D H T Msg Ctx U) :
    ConnectionProg queue ι D H T Msg U → Prop where
  | create (i : ι) : ConnectionOperation ids code (create ids i)
  | uninstall (i : ι) : ConnectionOperation ids code (uninstall ids i)
  | request (i : ι) (r : CallRequest D H T Msg) : ConnectionOperation ids code (request ids code i r)
  | respond (i : ι) (rpcMeta : RpcMeta) (data : StringView) (context : Ctx)
      (htype : rpcMeta.type = .response) (hid : rpcMeta.serviceId = ids i) :
      ConnectionOperation ids code (respond code i rpcMeta data context)
  | expire (timer : EventLoopTimer ι) : ConnectionOperation ids code (expire code timer)

/-- The surroundings of the clients: the operations are started at any time and run side by side. -/
def connectionWorld (ids : ι → UInt32) (code : ConnectionCode ι D H T Msg Ctx U) :
    World (Connection queue ι D H T U) (ConnectionEvent ι Msg) Empty (Except Exn Unit) where
  env s s' :=
    s'.manager = s.manager ∧ s'.clients = s.clients ∧ s'.uninstalled = s.uninstalled ∧
      s.clock ≤ s'.clock ∧ s'.eventLoop.timers = s.eventLoop.timers
  spawn := ConnectionOperation ids code
  bound _ := True

end operations

end GayRpc
