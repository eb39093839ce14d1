import GayRpc.Core.Helper
import GayRpc.Lib.Budget
import GayRpc.Lib.PriorityQueue
import Mathlib.Data.Finmap

/-!
# `BaseClient`

`GayRpcClient.h`: the calls that wait for a response, and the three ways in which one stops waiting.

    call                  draws an id, and enters a stub and perhaps a timeout callback and a timer
    processRpcResponse    takes the stub of a response out, or the callback of one that is timed out
    checkTimeout          takes the callbacks of all calls out whose time has come

The sections under `mStubMapGuard`, the increment of `mSequenceID` and the reading of the clock are
one atomic step each; the callbacks and the interceptors run between them, outside the lock. The sections
are functions on `BaseClient` (`insertTimed`, `takeResponse`, `expire` and so on), the operations are
programs that run them (`call`, `processRpcResponse`, `checkTimeout`).

Response handles and timeout callbacks are code of the user. The maps hold names for them (`H`, `T`),
and `ClientCode` says what each name does, so that the code may use the client it is stored in: its
questions are the calls that it makes. The program notes with each stub and callback which call has made
it (`owner`), and never looks at that; it is there for the statements.

`clientWorld` is everything around a client: any thread may start any operation at any time, a response
may be anything, and the clock does not go back.
-/

namespace GayRpc

/-- `WaitResponseTimer`. Points in time and durations are signed 64-bit counts of nanoseconds. -/
structure WaitResponseTimer where
  mEndTime : Int64
  mSeqID : UInt64
  deriving DecidableEq

namespace WaitResponseTimer

/-- The conversion of `std::chrono::seconds` to `std::chrono::nanoseconds`. -/
def nanoseconds (timeout : Int64) : Int64 := timeout * 1000000000

/-- `WaitResponseTimer(seqID, lastTime)`, when the clock reads `now`. -/
def start (seqID : UInt64) (lastTime now : Int64) : WaitResponseTimer :=
  { mEndTime := now + lastTime, mSeqID := seqID }

/-- The order of `CompareWaitResponseTimer`: the queue has the earliest end on top. -/
def le (left right : WaitResponseTimer) : Prop := left.mEndTime ≤ right.mEndTime

instance : DecidableRel le := fun left right =>
  inferInstanceAs (Decidable (left.mEndTime ≤ right.mEndTime))

instance : Std.Total le := ⟨fun left right => Int64.le_total left.mEndTime right.mEndTime⟩

instance : IsTrans WaitResponseTimer le := ⟨fun _ _ _ => Int64.le_trans⟩

end WaitResponseTimer

/-- What `mStubHandleMap` holds for a call: the lambda around the handle of the user, which parses the
response. `owner` and `timed` tell which call made it; the program does not look at them. -/
structure ResponseStub (D H : Type) where
  owner : UInt64
  timed : Bool
  type : D
  handle : Option H

/-- What `mTimeoutHandleMap` holds for a call: a callback, which may be an empty `std::function`. -/
structure TimeoutCallback (T : Type) where
  owner : UInt64
  callback : Option T

/-- `BaseClient`. Of `mSequenceID` the model keeps how often it was incremented. -/
structure BaseClient (queue : PriorityQueue WaitResponseTimer WaitResponseTimer.le)
    (D H T : Type) where
  mSequenceID : ℕ := 0
  mStubHandleMap : Finmap fun _ : UInt64 => ResponseStub D H := ∅
  mTimeoutHandleMap : Finmap fun _ : UInt64 => TimeoutCallback T := ∅
  mWaitResponseTimerQueue : queue.Carrier := queue.empty

namespace BaseClient

variable {queue : PriorityQueue WaitResponseTimer WaitResponseTimer.le} {D H T : Type}

/-- The value of `mSequenceID`, a 64-bit counter. -/
def nextID (c : BaseClient queue D H T) : UInt64 := UInt64.ofNat c.mSequenceID

/-- `mSequenceID++`. -/
def allocate (c : BaseClient queue D H T) : BaseClient queue D H T :=
  { c with mSequenceID := c.mSequenceID + 1 }

/-- The section of the timed `call`. -/
def insertTimed (sequenceID : UInt64) (callback : ResponseStub D H)
    (timeoutCallback : TimeoutCallback T) (waitTimer : WaitResponseTimer)
    (c : BaseClient queue D H T) : BaseClient queue D H T :=
  { c with
    mStubHandleMap := c.mStubHandleMap.insert sequenceID callback
    mTimeoutHandleMap := c.mTimeoutHandleMap.insert sequenceID timeoutCallback
    mWaitResponseTimerQueue := queue.push c.mWaitResponseTimerQueue waitTimer }

/-- The section of the `call` without a timeout. -/
def insertUntimed (sequenceID : UInt64) (callback : ResponseStub D H)
    (c : BaseClient queue D H T) : BaseClient queue D H T :=
  { c with mStubHandleMap := c.mStubHandleMap.insert sequenceID callback }

/-- The section of `processRpcResponse` for a timed-out response. -/
def takeTimeout (sequenceID : UInt64) (c : BaseClient queue D H T) : BaseClient queue D H T :=
  let c := { c with mStubHandleMap := c.mStubHandleMap.erase sequenceID }
  match c.mTimeoutHandleMap.lookup sequenceID with
  | some _ => { c with mTimeoutHandleMap := c.mTimeoutHandleMap.erase sequenceID }
  | none => c

/-- The section of `processRpcResponse` for any other response, whether or not it finds a stub. -/
def takeResponse (sequenceID : UInt64) (c : BaseClient queue D H T) : BaseClient queue D H T :=
  let c := { c with mTimeoutHandleMap := c.mTimeoutHandleMap.erase sequenceID }
  match c.mStubHandleMap.lookup sequenceID with
  | some _ => { c with mStubHandleMap := c.mStubHandleMap.erase sequenceID }
  | none => c

/-- Both maps without an id, as `checkTimeout` leaves them. -/
def forget (sequenceID : UInt64) (c : BaseClient queue D H T) : BaseClient queue D H T :=
  { c with
    mTimeoutHandleMap := c.mTimeoutHandleMap.erase sequenceID
    mStubHandleMap := c.mStubHandleMap.erase sequenceID }

def popTimer (c : BaseClient queue D H T) : BaseClient queue D H T :=
  { c with mWaitResponseTimerQueue := queue.pop c.mWaitResponseTimerQueue }

/-- The section of `checkTimeout`: the client it leaves, and the callbacks it takes along, each with
the id it was found under. `fuel` bounds the number of timers in the queue. -/
def takeExpired (now : Int64) :
    ℕ → BaseClient queue D H T → BaseClient queue D H T × List (UInt64 × TimeoutCallback T)
  | 0, c => (c, [])
  | fuel + 1, c =>
    match queue.top c.mWaitResponseTimerQueue with
    | none => (c, [])
    | some head =>
      -- the earliest is not due, so no other is
      if now < head.mEndTime then (c, [])
      else
        match c.mTimeoutHandleMap.lookup head.mSeqID with
        | some callback =>
          let (c', callbacks) := takeExpired now fuel (c.forget head.mSeqID).popTimer
          (c', (head.mSeqID, callback) :: callbacks)
        -- the call has been answered: only its timer is still there
        | none => takeExpired now fuel c.popTimer

/-- The section with fuel for every timer there is. -/
def expire (now : Int64) (c : BaseClient queue D H T) :
    BaseClient queue D H T × List (UInt64 × TimeoutCallback T) :=
  c.takeExpired now (queue.elems c.mWaitResponseTimerQueue).card

end BaseClient

/-! ## The operations

An operation that throws returns the exception. What it has done by then stays done. -/

/-- What a run of a client shows. `received` is the id that a response or a timer came with, `owner`
the call that registered what is run. -/
inductive ClientEvent (Msg : Type) where
  /-- a request is handed to the outbound interceptor -/
  | request (rpcMeta : RpcMeta) (message : Msg)
  /-- a response handle is called -/
  | handle (received owner : UInt64) (message : Msg) (error : Option RpcError)
  /-- a timeout callback is called -/
  | timeout (received owner : UInt64)

/-- The arguments of a `call`, of either overload; `timed` holds the timeout in seconds and the
callback of the second one. -/
structure CallRequest (D H T Msg : Type) where
  request : Msg
  serviceID : UInt32
  msgID : UInt64
  response : D
  handle : Option H
  timed : Option (Int64 × Option T)

/-- The state the threads of a process share: one client, the clock, and whatever the code of the
user keeps. -/
structure Host (queue : PriorityQueue WaitResponseTimer WaitResponseTimer.le)
    (D H T U : Type) where
  client : BaseClient queue D H T
  clock : Int64
  user : U

/-- The code of the user: the interceptors of the client, and the callbacks, whose questions are the
calls they issue. -/
structure ClientCode (D H T Msg Ctx U : Type) where
  codec : MessageCodec D Msg
  inbound : UnaryServerInterceptor U Empty Msg Ctx
  outbound : UnaryServerInterceptor U Empty Msg Ctx
  emptyContext : Ctx
  handle : H → Msg → Option RpcError → Prog U Empty (CallRequest D H T Msg) (Except Exn Unit) (Except Exn Unit)
  timeout : T → Prog U Empty (CallRequest D H T Msg) (Except Exn Unit) (Except Exn Unit)

section operations

variable {queue : PriorityQueue WaitResponseTimer WaitResponseTimer.le} {D H T Msg Ctx U : Type}

abbrev ClientProg (queue : PriorityQueue WaitResponseTimer WaitResponseTimer.le)
    (D H T Msg U : Type) : Type :=
  Prog (Host queue D H T U) (ClientEvent Msg) Empty Empty (Except Exn Unit)

namespace Host

def onClient (f : BaseClient queue D H T → BaseClient queue D H T) (h : Host queue D H T U) :
    Option (Host queue D H T U) :=
  some { h with client := f h.client }

def setUser (h : Host queue D H T U) (u : U) : Host queue D H T U := { h with user := u }

end Host

/-- `BaseClient::call`, both overloads. Without a timeout, a null handle registers nothing and asks
for no response. -/
def call (code : ClientCode D H T Msg Ctx U) (r : CallRequest D H T Msg) :
    ClientProg queue D H T Msg U :=
  .act (Host.onClient BaseClient.allocate) fun h =>
    let sequenceID := h.client.nextID
    let send (rpcMeta : RpcMeta) : ClientProg queue D H T Msg U :=
      .emit (.request rpcMeta r.request)
        (((code.outbound.call emptyHandler
          { rpcMeta := rpcMeta, message := r.request, context := code.emptyContext }).lift
            Host.user Host.setUser).bind fun reply => .ret reply.thrown)
    match r.timed with
    | some (timeout, timeoutCallback) =>
      let info : RpcMeta.Request :=
        { intMethod := r.msgID, sequenceId := sequenceID, expectResponse := true,
          timeout := timeout.toUInt64 }
      let rpcMeta : RpcMeta :=
        { makeRequestRpcMeta sequenceID r.serviceID r.msgID .binary true with request := some info }
      .act some fun h' =>
        let waitTimer := WaitResponseTimer.start sequenceID (WaitResponseTimer.nanoseconds timeout) h'.clock
        .act (Host.onClient (BaseClient.insertTimed sequenceID
            { owner := sequenceID, timed := true, type := r.response, handle := r.handle }
            { owner := sequenceID, callback := timeoutCallback } waitTimer)) fun _ =>
          send rpcMeta
    | none =>
      let expectResponse := r.handle.isSome
      -- `set_timeout(0)` sets what is the default
      let rpcMeta := makeRequestRpcMeta sequenceID r.serviceID r.msgID .binary expectResponse
      if expectResponse then
        .act (Host.onClient (BaseClient.insertUntimed sequenceID
            { owner := sequenceID, timed := false, type := r.response, handle := r.handle })) fun _ =>
          send rpcMeta
      else send rpcMeta

def runUser (code : ClientCode D H T Msg Ctx U)
    (p : Prog U Empty (CallRequest D H T Msg) (Except Exn Unit) (Except Exn Unit)) :
    ClientProg queue D H T Msg U :=
  (p.lift Host.user Host.setUser).plug (fun _ r => call code r) id ()

def runHandle (code : ClientCode D H T Msg Ctx U) (received : UInt64) (stub : ResponseStub D H)
    (message : Msg) (error : Option RpcError) : ClientProg queue D H T Msg U :=
  match stub.handle with
  | none => .ret (.error .badFunctionCall)
  | some handle =>
    .emit (.handle received stub.owner message error) (runUser code (code.handle handle message error))

def runTimeout (code : ClientCode D H T Msg Ctx U) (received : UInt64)
    (timeoutCallback : TimeoutCallback T) : ClientProg queue D H T Msg U :=
  match timeoutCallback.callback with
  | none => .ret (.error .badFunctionCall)
  | some callback =>
    .emit (.timeout received timeoutCallback.owner) (runUser code (code.timeout callback))

/-- `mInboundInterceptor`, on the state the client lives in. -/
def ClientCode.mInboundInterceptor (code : ClientCode D H T Msg Ctx U) :
    UnaryServerInterceptor (Host queue D H T U) (ClientEvent Msg) Msg Ctx := fun args =>
  (code.inbound args).lift Host.user Host.setUser

/-- Calling the stub that was taken out of `mStubHandleMap`. -/
def runStub (code : ClientCode D H T Msg Ctx U) (received : UInt64) (stub : ResponseStub D H)
    (rpcMeta : RpcMeta) (data : StringView) (context : Ctx) : ClientProg queue D H T Msg U :=
  (parseResponseWrapper code.codec stub.type (runHandle code received stub) rpcMeta data
    code.mInboundInterceptor context).bind fun reply => .ret reply.thrown

def processRpcResponse (code : ClientCode D H T Msg Ctx U) (rpcMeta : RpcMeta) (data : StringView)
    (context : Ctx) : ClientProg queue D H T Msg U :=
  if rpcMeta.type ≠ .response then
    .ret (.error (.runtimeError ("type :" ++ rpcMeta.type.toText ++ " not Response")))
  else
    let sequenceID := rpcMeta.responseInfo.sequenceId
    if rpcMeta.responseInfo.timeout then
      .act (Host.onClient (BaseClient.takeTimeout sequenceID)) fun h =>
        match h.client.mTimeoutHandleMap.lookup sequenceID with
        | some timeoutHandler =>
          -- tested for here, and not in `checkTimeout`
          if timeoutHandler.callback.isSome then runTimeout code sequenceID timeoutHandler
          else .ret (.ok ())
        | none => .ret (.ok ())
    else
      -- one section: lookup and erasure from all maps; the handle runs after it
      .act (Host.onClient (BaseClient.takeResponse sequenceID)) fun h =>
        match h.client.mStubHandleMap.lookup sequenceID with
        | some stub => runStub code sequenceID stub rpcMeta data context
        | none =>
          .ret (.error (.runtimeError ("not found response seq id:" ++ toString sequenceID)))

/-- The last loop of `checkTimeout`, which the first callback that throws ends. -/
def runCallbacks (code : ClientCode D H T Msg Ctx U) :
    List (UInt64 × TimeoutCallback T) → ClientProg queue D H T Msg U
  | [] => .ret (.ok ())
  | (received, callback) :: callbacks =>
    (runTimeout code received callback).bind fun
      | .ok () => runCallbacks code callbacks
      | .error e => .ret (.error e)

def checkTimeout (code : ClientCode D H T Msg Ctx U) : ClientProg queue D H T Msg U :=
  .act some fun h =>
    let now := h.clock
    .act (Host.onClient fun c => (c.expire now).1) fun h' =>
      runCallbacks code (h'.client.expire now).2

/-- What may run at any time: the operations of the client, called by whatever thread, and
responses of any kind that arrive for it. -/
inductive Operation (code : ClientCode D H T Msg Ctx U) : ClientProg queue D H T Msg U → Prop where
  | call (r : CallRequest D H T Msg) : Operation code (call code r)
  | processRpcResponse (rpcMeta : RpcMeta) (data : StringView) (context : Ctx) :
      Operation code (processRpcResponse code rpcMeta data context)
  | checkTimeout : Operation code (checkTimeout code)

/-- The surroundings of a client: operations are started at any time, the clock does not go back, and
the rest of the program does what it likes. Runs with `2 ^ 64` calls or more are left out. -/
def clientWorld (code : ClientCode D H T Msg Ctx U) :
    World (Host queue D H T U) (ClientEvent Msg) Empty (Except Exn Unit) where
  env h h' := h'.client = h.client ∧ h.clock ≤ h'.clock
  spawn := Operation code
  bound h := h.client.mSequenceID < 2 ^ 64

def Host.fresh (clock : Int64) (user : U) : Host queue D H T U :=
  { client := {}, clock := clock, user := user }

end operations

end GayRpc
