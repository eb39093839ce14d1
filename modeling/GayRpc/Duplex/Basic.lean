import GayRpc.Duplex.Code

/-!
# Two peers on one connection

The state of both peers, and what may happen to them: calls are started on either side, and the bytes
that one side has written reach the other in chunks of any size. All of it runs side by side, and the
threads that methods have started reply while it does.

    request    a call of the client of one side, which draws an id, enters a stub, and sends
    deliver    the data callback of one side, for the next n bytes that the other one has written
    Drifts     the user changes what he keeps, and time goes by

Within a data callback `binaryPacketHandle` finds the messages that are complete, and each is dispatched by
the table of the peer: a request to the `requestStub` of its service, a response to
`processRpcResponse` of its client. What is thrown meanwhile is caught for each message by itself. As the
handling of one message does not change what the other ones are, they are found first and handled then.

What is shown is enough to tell the whole story of a call: each request and response when it is handed to an
outbound chain, each call on a reply object, and each call of a handle.
-/

namespace GayRpc

/-- What runs on both peers show. -/
inductive DuplexEvent (Msg : Type) where
  | client (side : Side) (e : ClientEvent Msg)
  | service (side : Side) (e : ServiceEvent Msg)

/-- The two handlers that a peer has registered. -/
inductive Handler where
  | client
  | service
  deriving DecidableEq

/-- What the threads of a peer share. `held` are the bytes that were received and not yet parsed.
`calls` are the calls of the client, in the order of their ids; the program does not look at it. -/
structure Peer (queue : PriorityQueue WaitResponseTimer WaitResponseTimer.le)
    (D H T Msg V : Type) where
  manager : RpcTypeHandleManager Handler
  client : BaseClient queue D H T := {}
  clock : Int64
  server : Server (Session V)
  held : List UInt8 := []
  calls : List (CallRequest D H T Msg) := []

structure Duplex (queue : PriorityQueue WaitResponseTimer WaitResponseTimer.le)
    (D H T Msg V : Type) where
  peer : Side → Peer queue D H T Msg V

section operations

variable {queue : PriorityQueue WaitResponseTimer WaitResponseTimer.le} {D H T Msg Ctx V : Type}

namespace Peer

def session (p : Peer queue D H T Msg V) : Session V := p.server.user

def setSession (p : Peer queue D H T Msg V) (s : Session V) : Peer queue D H T Msg V :=
  { p with server := p.server.setUser s }

def host (p : Peer queue D H T Msg V) : Host queue D H T (Session V) :=
  { client := p.client, clock := p.clock, user := p.session }

def setHost (p : Peer queue D H T Msg V) (h : Host queue D H T (Session V)) :
    Peer queue D H T Msg V :=
  { p.setSession h.user with client := h.client, clock := h.clock }

/-- The `RpcTypeHandleManager` after `Create` of the client and `Install` of the service. -/
def installed (serviceID : UInt32) : RpcTypeHandleManager Handler :=
  let created := (({} : RpcTypeHandleManager Handler).registerTypeHandle .response .client serviceID).2
  (created.registerTypeHandle .request .service serviceID).2

def fresh (serviceID : UInt32) (clock : Int64) (user : V) : Peer queue D H T Msg V :=
  { manager := installed serviceID
    clock := clock
    server := { promises := { user := { user := user } } } }

end Peer

namespace Duplex

def update (side : Side) (p : Peer queue D H T Msg V) (d : Duplex queue D H T Msg V) :
    Duplex queue D H T Msg V :=
  { peer := Function.update d.peer side p }

section update

variable (d : Duplex queue D H T Msg V) (side x : Side) (p : Peer queue D H T Msg V)

@[simp] theorem update_peer : (d.update side p).peer side = p := Function.update_self ..

theorem update_peer_of_ne (h : x ≠ side) : (d.update side p).peer x = d.peer x :=
  Function.update_of_ne h ..

@[simp] theorem update_update (p' : Peer queue D H T Msg V) :
    (d.update side p).update side p' = d.update side p' :=
  congrArg Duplex.mk (Function.update_idem ..)

variable {d side p} in
/-- What the change at one end leaves alone. -/
theorem update_proj {α : Type} {f : Peer queue D H T Msg V → α} (h : f p = f (d.peer side)) :
    f ((d.update side p).peer x) = f (d.peer x) := by
  by_cases hx : x = side
  · rw [hx, update_peer, h]
  · rw [update_peer_of_ne _ _ _ _ hx]

end update

def note (side : Side) (r : CallRequest D H T Msg) (d : Duplex queue D H T Msg V) :
    Duplex queue D H T Msg V :=
  d.update side { d.peer side with calls := (d.peer side).calls ++ [r] }

def fresh (serviceID : UInt32) (clock : Side → Int64) (user : Side → V) :
    Duplex queue D H T Msg V :=
  { peer := fun side => .fresh serviceID (clock side) (user side) }

end Duplex

abbrev DuplexProg (queue : PriorityQueue WaitResponseTimer WaitResponseTimer.le)
    (D H T Msg V : Type) : Type :=
  Prog (Duplex queue D H T Msg V) (DuplexEvent Msg) Empty Empty (Except Exn Unit)

namespace Duplex

section parts

variable {Q A R R' : Type} (side : Side)

def onClient (p : Prog (Host queue D H T (Session V)) (ClientEvent Msg) Q A R) :
    Prog (Duplex queue D H T Msg V) (DuplexEvent Msg) Q A R :=
  p.within (fun d => some (d.peer side).host)
    (fun d h => d.update side ((d.peer side).setHost h)) (.client side)

def onService (p : Prog (Server (Session V)) (ServiceEvent Msg) Q A R) :
    Prog (Duplex queue D H T Msg V) (DuplexEvent Msg) Q A R :=
  p.within (fun d => some (d.peer side).server)
    (fun d s => d.update side { d.peer side with server := s }) (.service side)

end parts

end Duplex

/-- A call without timeout to a method that the other side has. The classes of the generated client are
those of the generated service. -/
structure KnownCall (code : DuplexCode D Msg Ctx V) (side : Side) (H T : Type) where
  request : CallRequest D H T Msg
  method : RpcMethod code.protobuf Ctx V
  known : (code.peer side.other).serviceHandlerMapById.dlookup request.msgID = some method
  untimed : request.timed = none
  serviceID : request.serviceID = code.serviceID
  request_class : code.protobuf.OfClass method.requestType request.request
  response_class : request.response = method.responseType

namespace DuplexCode

variable (code : DuplexCode D Msg Ctx V) (side : Side)

def request (r : KnownCall code side H T) : DuplexProg queue D H T Msg V :=
  (Duplex.onClient side (call (code.client side) r.request)).noting (Duplex.note side r.request)

def callHandler (rpcMeta : RpcMeta) (data : StringView) :
    Except Exn Handler → DuplexProg queue D H T Msg V
  | .error e => .ret (.error e)
  | .ok .client =>
    Duplex.onClient side (processRpcResponse (code.client side) rpcMeta data code.emptyContext)
  | .ok .service =>
    Duplex.onService side ((code.service side).requestStub rpcMeta data code.emptyContext)

def handleRpcMsg (rpcMeta : RpcMeta) (data : StringView) : DuplexProg queue D H T Msg V :=
  .act some fun d => code.callHandler side rpcMeta data ((d.peer side).manager.handleRpcMsg rpcMeta)

/-- The messages that were found in a chunk are handled one after the other; `pbPacketHandle` catches
whatever is thrown meanwhile. -/
def handleMessages : List (RpcMeta × StringView) → DuplexProg queue D H T Msg V
  | [] => .ret (.ok ())
  | (rpcMeta, data) :: messages =>
    (code.handleRpcMsg side rpcMeta data).bind fun _ => handleMessages messages

/-- `handleRpcMsg` put off: the message is written down. -/
def collect (rpcMeta : RpcMeta) (data : StringView) (messages : List (RpcMeta × StringView)) :
    Except Exn Unit × List (RpcMeta × StringView) :=
  (.ok (), messages ++ [(rpcMeta, data)])

def chunk (n : ℕ) (d : Duplex queue D H T Msg V) : List UInt8 :=
  (d.peer side.other).session.outgoing.take n

/-- What `binaryPacketHandle` makes of the chunk: what it holds back, and the messages it finds. -/
def arrive (n : ℕ) (d : Duplex queue D H T Msg V) : List UInt8 × List (RpcMeta × StringView) :=
  (receive code.order (opHandle code.order code.protobuf.parseMeta collect) (d.peer side).held
    (chunk side n d) []).2

def delivered (n : ℕ) (d : Duplex queue D H T Msg V) : Duplex queue D H T Msg V :=
  let sender := d.peer side.other
  let outgoing := sender.session.outgoing.drop n
  (d.update side { d.peer side with held := (code.arrive side n d).1 }).update side.other
    (sender.setSession { sender.session with outgoing := outgoing })

/-- The data callback of one side, for the next `n` bytes that the other side has written. Handling the
messages does not change how the bytes are cut, so all are cut before any is handled. -/
def deliver (n : ℕ) : DuplexProg queue D H T Msg V :=
  .act (fun d =>
      -- the bytes are in memory, and their number is a `size_t`
      if ((d.peer side).held ++ chunk side n d).length < 2 ^ 64 then some (code.delivered side n d)
      else none)
    fun d => code.handleMessages side (code.arrive side n d).2

/-- What may happen at any time, on either side. -/
inductive Operation : DuplexProg queue D H T Msg V → Prop where
  | request (side : Side) (r : KnownCall code side H T) : Operation (code.request side r)
  | deliver (side : Side) (n : ℕ) : Operation (code.deliver side n)

end DuplexCode

/-- The user changes what he keeps, and time goes by. -/
def Duplex.Drifts (d d' : Duplex queue D H T Msg V) : Prop :=
  ∀ side, ∃ (clock : Int64) (user : V), d'.peer side =
    { (d.peer side).setSession ((d.peer side).session.setUser user) with clock := clock }

/-- Fewer than `2 ^ 64` calls, and messages below the limit. -/
structure Duplex.Bounded (limit : ℕ) (d : Duplex queue D H T Msg V) : Prop where
  calls : ∀ side, (d.peer side).client.mSequenceID < 2 ^ 64
  sent : ∀ side, ∀ m ∈ (d.peer side).session.sent, m.1.length < limit ∧ m.2.length < limit

def duplexWorld (code : DuplexCode D Msg Ctx V) :
    World (Duplex queue D H T Msg V) (DuplexEvent Msg) Empty (Except Exn Unit) where
  env := Duplex.Drifts
  spawn := code.Operation
  bound := Duplex.Bounded code.protobuf.sizeLimit

end operations

end GayRpc
