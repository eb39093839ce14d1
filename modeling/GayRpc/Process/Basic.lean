import GayRpc.Core.Client
import GayRpc.Core.Reply
import GayRpc.Core.TypeHandler
import GayRpc.Lib.Locks
import GayRpc.Utils.Interceptor
import Mathlib.Logic.Function.Basic

/-!
# The library with its locks

All that a process has of the library: tables of handlers, clients and services, with `mMutex` of each
table and `mStubMapGuard` of each client. The code of the user may call whatever the library offers,
from wherever it runs, so the operations are the questions it asks, and each has a body that shows
where it takes its locks and where it runs code of the user. The one pair of operations that is not
offered here is `setNetworkThreadChecker` and `inInNetworkThread`, which have a lock of their own.

    LibraryCall    what the user may call
    body           what the library does then, with locks as events and code of the user as questions

An interceptor, a method, a handle and a timeout callback are code of the user and may all use the library;
so may the checker that was left out. A dispatch holds `mMutex` shared while the handler runs, and with it
everything that the handler calls.

Tables, clients and services have names of the types `μ`, `ι` and `ν`. An object that has a name is
made by then: what `Create` has left to do is to register it. Several objects may share a table, as
the clients and services of a connection do.
-/

namespace GayRpc

/-- The two locks that guard what the threads of a process share. `mNetworkThreadCheckerMutex` of a client
is left out, and so are the two operations it is for. -/
inductive Lock (μ ι : Type) where
  | mMutex (manager : μ)
  | mStubMapGuard (client : ι)
  deriving DecidableEq

/-- The two kinds of handlers that are registered. -/
inductive TypeHandle (ι ν : Type) where
  | responseStub (client : ι)
  | requestStub (service : ν)

/-- What the code of the user may call. -/
inductive LibraryCall (μ ι ν D H T Msg Ctx : Type) where
  | call (client : ι) (r : CallRequest D H T Msg)
  /-- `reply` or `error` of a reply object that `service` was given -/
  | reply (service : ν) (replyObj : BaseReply) (answer : ReplyCall Msg Ctx)
  | create (client : ι)
  | uninstallClient (client : ι)
  | install (service : ν)
  | uninstallService (service : ν)
  | removeAll (manager : μ)
  | checkTimeout (client : ι)
  | handleRpcMsg (manager : μ) (rpcMeta : RpcMeta) (data : StringView) (context : Ctx)
  | causeTimeout (manager : μ) (seq_id : UInt64)
  /-- `setValue` or `setException` of a promise that an interceptor has made -/
  | fulfil (promise : ℕ) (outcome : Outcome)

section code

variable (μ ι ν D H T Msg Ctx U : Type)

abbrev UserProg (R : Type) : Type :=
  Prog U Empty (LibraryCall μ ι ν D H T Msg Ctx) (Except Exn Unit) R

/-- A chain of interceptors. Besides calling its continuation it may use the library. -/
abbrev InterceptorChain : Type :=
  Args Msg Ctx →
    Prog U Empty (Args Msg Ctx ⊕ LibraryCall μ ι ν D H T Msg Ctx) (Reply ⊕ Except Exn Unit) Reply

structure ProcessMethod where
  type : D
  run : Msg → BaseReply → Ctx → UserProg μ ι ν D H T Msg Ctx U (Except Exn Unit)

/-- The clients and services of a process, and the code of the user around them. -/
structure ProcessCode where
  codec : MessageCodec D Msg
  emptyContext : Ctx
  /-- `RpcMeta{}` as a message -/
  noMessage : Msg
  clientManager : ι → μ
  clientServiceID : ι → UInt32
  clientInbound : ι → InterceptorChain μ ι ν D H T Msg Ctx U
  clientOutbound : ι → InterceptorChain μ ι ν D H T Msg Ctx U
  serviceManager : ν → μ
  serviceID : ν → UInt32
  serviceTypeName : ν → String
  serviceInbound : ν → InterceptorChain μ ι ν D H T Msg Ctx U
  serviceOutbound : ν → InterceptorChain μ ι ν D H T Msg Ctx U
  serviceHandlerMapById : ν → Finmap fun _ : UInt64 => ProcessMethod μ ι ν D H T Msg Ctx U
  serviceHandlerMapByStr : ν → Finmap fun _ : String => ProcessMethod μ ι ν D H T Msg Ctx U
  handle : H → Msg → Option RpcError → UserProg μ ι ν D H T Msg Ctx U (Except Exn Unit)
  timeout : T → UserProg μ ι ν D H T Msg Ctx U (Except Exn Unit)

end code

/-- What the threads of a process share. -/
structure Process (queue : PriorityQueue WaitResponseTimer WaitResponseTimer.le)
    (μ ι ν D H T U : Type) where
  managers : μ → RpcTypeHandleManager (TypeHandle ι ν) := fun _ => {}
  clients : ι → BaseClient queue D H T := fun _ => {}
  clock : Int64
  server : Server U
  /-- what was given to `thenValue` of a future: the service, and the meta of the request -/
  continuations : ℕ → Option (ν × RpcMeta) := fun _ => none

section operations

variable {queue : PriorityQueue WaitResponseTimer WaitResponseTimer.le}
  {μ ι ν D H T Msg Ctx U R : Type}

abbrev LibraryProg (queue : PriorityQueue WaitResponseTimer WaitResponseTimer.le)
    (μ ι ν D H T Msg Ctx U R : Type) : Type :=
  Prog (Process queue μ ι ν D H T U) (LockEvent (Lock μ ι)) (LibraryCall μ ι ν D H T Msg Ctx)
    (Except Exn Unit) R

namespace Process

def user (s : Process queue μ ι ν D H T U) : U := s.server.user

def setUser (s : Process queue μ ι ν D H T U) (u : U) : Process queue μ ι ν D H T U :=
  { s with server := s.server.setUser u }

def onClient [DecidableEq ι] (i : ι) (f : BaseClient queue D H T → BaseClient queue D H T)
    (s : Process queue μ ι ν D H T U) : Option (Process queue μ ι ν D H T U) :=
  some { s with clients := Function.update s.clients i (f (s.clients i)) }

def onManager [DecidableEq μ] (m : μ)
    (f : RpcTypeHandleManager (TypeHandle ι ν) → RpcTypeHandleManager (TypeHandle ι ν))
    (s : Process queue μ ι ν D H T U) : Option (Process queue μ ι ν D H T U) :=
  some { s with managers := Function.update s.managers m (f (s.managers m)) }

/-- `thenValue` keeps its argument until the promise is fulfilled. -/
def thenValue (promise : ℕ) (service : ν) (rpcMeta : RpcMeta) (s : Process queue μ ι ν D H T U) :
    Option (Process queue μ ι ν D H T U) :=
  if (s.server.promises.fulfilled promise).isSome then some s
  else
    some { s with continuations := Function.update s.continuations promise (some (service, rpcMeta)) }

/-- A promise is fulfilled once. -/
def fulfil (promise : ℕ) (outcome : Outcome) (s : Process queue μ ι ν D H T U) :
    Option (Process queue μ ι ν D H T U) :=
  if (s.server.promises.fulfilled promise).isSome then some s
  else
    -- the continuation is taken out, and runs on the thread that has fulfilled the promise
    some { s with
      server := s.server.setPromises
        { s.server.promises with
          fulfilled := Function.update s.server.promises.fulfilled promise (some outcome) }
      continuations := Function.update s.continuations promise none }

end Process

/-- Code of the user, whose calls stay questions. -/
def runUserCode (p : UserProg μ ι ν D H T Msg Ctx U R) : LibraryProg queue μ ι ν D H T Msg Ctx U R :=
  p.lift Process.user Process.setUser

/-- A chain with `next` at its end, which gets to know whether it is called for the first time. -/
def runChain (next : Bool → Args Msg Ctx → LibraryProg queue μ ι ν D H T Msg Ctx U Reply)
    (first : Bool) :
    Prog U Empty (Args Msg Ctx ⊕ LibraryCall μ ι ν D H T Msg Ctx) (Reply ⊕ Except Exn Unit) Reply →
      LibraryProg queue μ ι ν D H T Msg Ctx U Reply
  | .ret reply => .ret reply
  | .halt => .halt
  -- whatever was captured by the handler is moved out by the first call
  | .ask (.inl args) k => (next first args).bind fun reply => runChain next false (k (.inl reply))
  | .ask (.inr c) k => .ask c fun result => runChain next first (k (.inr result))
  | .act f k =>
    .act (fun s => (f s.user).map s.setUser) fun s => runChain next first (k s.user)
  | .emit e _ => e.elim
  | .fork p k => .fork (runChain next first p) (runChain next first k)

/-- A message on its way out. The handler at the end of the chain does nothing. -/
def sendOut (outboundInterceptor : InterceptorChain μ ι ν D H T Msg Ctx U) (rpcMeta : RpcMeta)
    (message : Msg) (context : Ctx) : LibraryProg queue μ ι ν D H T Msg Ctx U (Except Exn Unit) :=
  (runChain (fun _ args => .ret { result := .ok (.ready (.value none)), rpcMeta := args.rpcMeta })
    true (outboundInterceptor { rpcMeta := rpcMeta, message := message, context := context })).bind
      fun reply => .ret reply.thrown

/-- What becomes of a handler at the end of an inbound chain. -/
def handlerReply (rpcMeta : RpcMeta) : Except Exn Unit → Reply
  | .ok () => { result := .ok (.ready (.value none)), rpcMeta := rpcMeta }
  | .error e => { result := .error e, rpcMeta := rpcMeta }

/-- A section on a client under `mStubMapGuard`, and what it takes along of the client it found. -/
def underGuard [DecidableEq ι] (i : ι) (f : BaseClient queue D H T → BaseClient queue D H T)
    (found : BaseClient queue D H T → R) : LibraryProg queue μ ι ν D H T Msg Ctx U R :=
  .withLock (.mStubMapGuard i) .exclusive
    (.act (Process.onClient i f) fun s => .ret (found (s.clients i)))

/-- A section on a table under a `unique_lock` of `mMutex`, and what comes of the table it found. -/
def underMutex [DecidableEq μ] (m : μ)
    (f : RpcTypeHandleManager (TypeHandle ι ν) → RpcTypeHandleManager (TypeHandle ι ν))
    (found : RpcTypeHandleManager (TypeHandle ι ν) → R) :
    LibraryProg queue μ ι ν D H T Msg Ctx U R :=
  .withLock (.mMutex m) .exclusive
    (.act (Process.onManager m f) fun s => .ret (found (s.managers m)))

namespace ProcessCode

variable (code : ProcessCode μ ι ν D H T Msg Ctx U)

/-! ## Clients

As in `Core/Client`, with each section under `mStubMapGuard`, and with callbacks that may use the whole
library. -/

section client

variable [DecidableEq ι] (i : ι)

def call (r : CallRequest D H T Msg) :
    LibraryProg queue μ ι ν D H T Msg Ctx U (Except Exn Unit) :=
  .act (Process.onClient i BaseClient.allocate) fun s =>
    let sequenceID := (s.clients i).nextID
    let send (rpcMeta : RpcMeta) : LibraryProg queue μ ι ν D H T Msg Ctx U (Except Exn Unit) :=
      sendOut (code.clientOutbound i) rpcMeta r.request code.emptyContext
    match r.timed with
    | some (timeout, timeoutCallback) =>
      let info : RpcMeta.Request :=
        { intMethod := r.msgID, sequenceId := sequenceID, expectResponse := true,
          timeout := timeout.toUInt64 }
      let rpcMeta : RpcMeta :=
        { makeRequestRpcMeta sequenceID r.serviceID r.msgID .binary true with request := some info }
      -- the clock is read before the guard is taken
      .act some fun s' =>
        let waitTimer := WaitResponseTimer.start sequenceID (WaitResponseTimer.nanoseconds timeout) s'.clock
        (underGuard i (BaseClient.insertTimed sequenceID
            { owner := sequenceID, timed := true, type := r.response, handle := r.handle }
            { owner := sequenceID, callback := timeoutCallback } waitTimer) fun _ => ()).bind fun _ =>
          send rpcMeta
    | none =>
      let expectResponse := r.handle.isSome
      let rpcMeta := makeRequestRpcMeta sequenceID r.serviceID r.msgID .binary expectResponse
      if expectResponse then
        (underGuard i (BaseClient.insertUntimed sequenceID
            { owner := sequenceID, timed := false, type := r.response, handle := r.handle })
          fun _ => ()).bind fun _ => send rpcMeta
      else send rpcMeta

def runTimeout (timeoutCallback : TimeoutCallback T) :
    LibraryProg queue μ ι ν D H T Msg Ctx U (Except Exn Unit) :=
  match timeoutCallback.callback with
  | none => .ret (.error .badFunctionCall)
  | some callback => runUserCode (code.timeout callback)

def runHandle (stub : ResponseStub D H) (message : Msg) (error : Option RpcError) :
    LibraryProg queue μ ι ν D H T Msg Ctx U (Except Exn Unit) :=
  match stub.handle with
  | none => .ret (.error .badFunctionCall)
  | some handle => runUserCode (code.handle handle message error)

def parseResponseWrapper (stub : ResponseStub D H) (rpcMeta : RpcMeta) (data : StringView)
    (context : Ctx) : LibraryProg queue μ ι ν D H T Msg Ctx U Reply :=
  match parseMessage code.codec "response" stub.type rpcMeta.encoding data with
  | .error e => .ret { result := .error e, rpcMeta := rpcMeta }
  | .ok response =>
    let error : Option RpcError :=
      if rpcMeta.responseInfo.failed then
        some (.ofCode rpcMeta.responseInfo.errorCode rpcMeta.responseInfo.reason)
      else none
    runChain
      (fun _ args => (code.runHandle stub args.message (error.map RpcError.copy)).bind fun result =>
        .ret (handlerReply args.rpcMeta result))
      true (code.clientInbound i { rpcMeta := rpcMeta, message := response, context := context })

def processRpcResponse (rpcMeta : RpcMeta) (data : StringView) (context : Ctx) :
    LibraryProg queue μ ι ν D H T Msg Ctx U (Except Exn Unit) :=
  if rpcMeta.type ≠ .response then
    .ret (.error (.runtimeError ("type :" ++ rpcMeta.type.toText ++ " not Response")))
  else
    let sequenceID := rpcMeta.responseInfo.sequenceId
    if rpcMeta.responseInfo.timeout then
      (underGuard i (BaseClient.takeTimeout sequenceID) fun c =>
          c.mTimeoutHandleMap.lookup sequenceID).bind fun
        | some timeoutHandler =>
          if timeoutHandler.callback.isSome then code.runTimeout timeoutHandler else .ret (.ok ())
        | none => .ret (.ok ())
    else
      (underGuard i (BaseClient.takeResponse sequenceID) fun c =>
          c.mStubHandleMap.lookup sequenceID).bind fun
        | some stub =>
          (code.parseResponseWrapper i stub rpcMeta data context).bind fun reply => .ret reply.thrown
        | none =>
          .ret (.error (.runtimeError ("not found response seq id:" ++ toString sequenceID)))

/-- The last loop of `checkTimeout`, which the first callback that throws ends. -/
def runCallbacks : List (UInt64 × TimeoutCallback T) →
    LibraryProg queue μ ι ν D H T Msg Ctx U (Except Exn Unit)
  | [] => .ret (.ok ())
  | (_, callback) :: callbacks =>
    (code.runTimeout callback).bind fun
      | .ok () => runCallbacks callbacks
      | .error e => .ret (.error e)

def checkTimeout : LibraryProg queue μ ι ν D H T Msg Ctx U (Except Exn Unit) :=
  .act some fun s =>
    let now := s.clock
    (underGuard i (fun c => (c.expire now).1) fun c => (c.expire now).2).bind code.runCallbacks

end client

/-! ## Services

As in `Core/Service`. A service takes no lock. -/

section service

variable (service : ν)

def ReplyError (serviceId : UInt32) (seqId : UInt64) (errorCode : Int32) (reason : String)
    (context : Ctx) : LibraryProg queue μ ι ν D H T Msg Ctx U (Except Exn Unit) :=
  sendOut (code.serviceOutbound service) (errorMeta serviceId seqId errorCode reason) code.noMessage
    context

/-- `BaseReply::reply` and `BaseReply::error`. -/
def reply (replyObj : BaseReply) (answer : ReplyCall Msg Ctx) :
    LibraryProg queue μ ι ν D H T Msg Ctx U (Except Exn Unit) :=
  -- no lock is held here: the flag is atomic
  .act (fun s => some { s with server := s.server.setFlag replyObj.number }) fun s =>
    if s.server.mReplyFlag replyObj.number then .ret (.error (.runtimeError "already reply"))
    else if !replyObj.mRequestMeta.requestInfo.expectResponse then .ret (.ok ())
    else if replyObj.hasOutboundInterceptor then
      match answer with
      | .reply response context =>
        sendOut (code.serviceOutbound service) (replyMeta replyObj.mRequestMeta) response context
      | .error errorCode reason context =>
        code.ReplyError service replyObj.mRequestMeta.serviceId
          replyObj.mRequestMeta.requestInfo.sequenceId errorCode reason context
    else .ret (.error .badFunctionCall)

/-- The search for the method; the error is the text that is sent back. -/
def findHandler (rpcMeta : RpcMeta) : Except String (ProcessMethod μ ι ν D H T Msg Ctx U) :=
  if rpcMeta.requestInfo.strMethod ≠ "" then
    match (code.serviceHandlerMapByStr service).lookup rpcMeta.requestInfo.strMethod with
    | some handler => .ok handler
    | none => .error ("not found handle, method:" ++ rpcMeta.requestInfo.strMethod)
  else
    match (code.serviceHandlerMapById service).lookup rpcMeta.requestInfo.intMethod with
    | some handler => .ok handler
    | none => .error ("not found handle, method:" ++ toString rpcMeta.requestInfo.intMethod)

/-- The lambda at the end of the inbound chain, which calls the method with a new reply object. -/
def methodHandler (method : ProcessMethod μ ι ν D H T Msg Ctx U) (first : Bool)
    (args : Args Msg Ctx) : LibraryProg queue μ ι ν D H T Msg Ctx U Reply :=
  .act (fun s => some { s with server := { s.server with replies := s.server.replies + 1 } }) fun s =>
    let replyObject : BaseReply :=
      { number := s.server.replies, mRequestMeta := args.rpcMeta, hasOutboundInterceptor := first }
    (runUserCode (method.run args.message replyObject args.context)).bind fun result =>
      -- the meta was moved into the reply object
      .ret (handlerReply {} result)

/-- The stub of a method, such as `Echo_stub`, with `parseRequestWrapper` in it. -/
def methodStub (method : ProcessMethod μ ι ν D H T Msg Ctx U) (rpcMeta : RpcMeta) (data : StringView)
    (context : Ctx) : LibraryProg queue μ ι ν D H T Msg Ctx U Reply :=
  match parseMessage code.codec "request" method.type rpcMeta.encoding data with
  | .error e => .ret { result := .error e, rpcMeta := rpcMeta }
  | .ok request =>
    runChain (methodHandler method) true
      (code.serviceInbound service { rpcMeta := rpcMeta, message := request, context := context })

/-- An error of the chain is sent back, to the ids that the meta of the request has by then. -/
def reportError (rpcMeta : RpcMeta) (err : String) :
    LibraryProg queue μ ι ν D H T Msg Ctx U (Except Exn Unit) :=
  code.ReplyError service rpcMeta.serviceId rpcMeta.requestInfo.sequenceId 0 err code.emptyContext

/-- The argument of `thenValue`. What it throws goes into a future that nobody looks at. -/
def continuation (rpcMeta : RpcMeta) :
    Outcome → LibraryProg queue μ ι ν D H T Msg Ctx U (Except Exn Unit)
  | .value (some err) => (code.reportError service rpcMeta err).bind fun _ => .ret (.ok ())
  | .value none => .ret (.ok ())
  | .exception _ => .ret (.ok ())

def reportOutcome (rpcMeta : RpcMeta) :
    Outcome → LibraryProg queue μ ι ν D H T Msg Ctx U (Except Exn Unit)
  | .value none => .ret (.ok ())
  | .value (some err) => code.reportError service rpcMeta err
  | .exception e =>
    -- `get_exception()` is null for what is not a `std::exception`, and using it is undefined
    if e = .unknown then .halt else code.reportError service rpcMeta e.caughtText

/-- The end of `requestStub`, with what the chain came back with. A promise is looked at once by
`isReady()`, and again when `thenValue` is to wait for it. -/
def afterHandler (reply : Reply) : LibraryProg queue μ ι ν D H T Msg Ctx U (Except Exn Unit) :=
  match reply.result with
  | .error e => .ret (.error e)
  | .ok (.ready outcome) => code.reportOutcome service reply.rpcMeta outcome
  | .ok (.pending promise) =>
    -- `isReady()`; by the time of `thenValue` the promise may have been fulfilled as well
    .act some fun s =>
      match s.server.promises.fulfilled promise with
      | some outcome => code.reportOutcome service reply.rpcMeta outcome
      | none =>
        .act (Process.thenValue promise service reply.rpcMeta) fun s =>
          match s.server.promises.fulfilled promise with
          | some outcome => code.continuation service reply.rpcMeta outcome
          | none => .ret (.ok ())

def requestStub (rpcMeta : RpcMeta) (data : StringView) (context : Ctx) :
    LibraryProg queue μ ι ν D H T Msg Ctx U (Except Exn Unit) :=
  if rpcMeta.type ≠ .request then
    .ret (.error (.runtimeError ("meta type not request, It is:" ++ rpcMeta.type.toText)))
  else
    match code.findHandler service rpcMeta with
    | .error what => code.reportError service rpcMeta what
    | .ok handler =>
      (code.methodStub service handler rpcMeta data context).bind (code.afterHandler service)

/-- A promise is fulfilled, and what waits for it runs at once. -/
def fulfil (promise : ℕ) (outcome : Outcome) :
    LibraryProg queue μ ι ν D H T Msg Ctx U (Except Exn Unit) :=
  .act (Process.fulfil promise outcome) fun s =>
    if (s.server.promises.fulfilled promise).isSome then
      .ret (.error (.standard "Promise already satisfied"))
    else
      match s.continuations promise with
      | some (service, rpcMeta) => code.continuation service rpcMeta outcome
      | none => .ret (.ok ())

end service

/-! ## Tables -/

section manager

variable [DecidableEq μ]

/-- The end of `Create`: `installResponseStub`, which does not look whether the handler was entered. -/
def create (i : ι) : LibraryProg queue μ ι ν D H T Msg Ctx U (Except Exn Unit) :=
  underMutex (code.clientManager i)
    (fun m => (m.registerTypeHandle .response (.responseStub i) (code.clientServiceID i)).2)
    fun _ => .ok ()

def uninstallClient (i : ι) : LibraryProg queue μ ι ν D H T Msg Ctx U (Except Exn Unit) :=
  underMutex (code.clientManager i) (fun m => m.removeTypeHandle .response (code.clientServiceID i))
    fun _ => .ok ()

/-- `install` of a service, which is `Install`. -/
def install (v : ν) : LibraryProg queue μ ι ν D H T Msg Ctx U (Except Exn Unit) :=
  underMutex (code.serviceManager v)
    (fun m => (m.registerTypeHandle .request (.requestStub v) (code.serviceID v)).2)
    fun m =>
      -- false when the id was taken, with the table as it was
      if (m.registerTypeHandle .request (.requestStub v) (code.serviceID v)).1 then .ok ()
      else
        .error (.runtimeError
          ("register service:" ++ code.serviceTypeName v ++ " type handler failed"))

def uninstallService (v : ν) : LibraryProg queue μ ι ν D H T Msg Ctx U (Except Exn Unit) :=
  underMutex (code.serviceManager v) (fun m => m.removeTypeHandle .request (code.serviceID v))
    fun _ => .ok ()

def removeAll (m : μ) : LibraryProg queue μ ι ν D H T Msg Ctx U (Except Exn Unit) :=
  underMutex m RpcTypeHandleManager.removeAll fun _ => .ok ()

variable [DecidableEq ι]

def callHandler (rpcMeta : RpcMeta) (data : StringView) (context : Ctx) :
    TypeHandle ι ν → LibraryProg queue μ ι ν D H T Msg Ctx U (Except Exn Unit)
  | .responseStub i => code.processRpcResponse i rpcMeta data context
  | .requestStub v => code.requestStub v rpcMeta data context

/-- `RpcTypeHandleManager::handleRpcMsg`. The handler runs under the `shared_lock`. -/
def handleRpcMsg (m : μ) (rpcMeta : RpcMeta) (data : StringView) (context : Ctx) :
    LibraryProg queue μ ι ν D H T Msg Ctx U (Except Exn Unit) :=
  .withLock (.mMutex m) .shared
    (.act some fun s =>
      match (s.managers m).handleRpcMsg rpcMeta with
      | .error e => .ret (.error e)
      | .ok handler => code.callHandler rpcMeta data context handler)

/-- `causeTimeout`; no exception gets out of it. -/
def causeTimeout (m : μ) (seq_id : UInt64) :
    LibraryProg queue μ ι ν D H T Msg Ctx U (Except Exn Unit) :=
  (code.handleRpcMsg m (timeoutMeta seq_id) { base := [], offset := 0, size := 0 }
    code.emptyContext).bind fun _ => .ret (.ok ())

def body : LibraryCall μ ι ν D H T Msg Ctx →
    LibraryProg queue μ ι ν D H T Msg Ctx U (Except Exn Unit)
  | .call i r => code.call i r
  | .reply v replyObj answer => code.reply v replyObj answer
  | .create i => code.create i
  | .uninstallClient i => code.uninstallClient i
  | .install v => code.install v
  | .uninstallService v => code.uninstallService v
  | .removeAll m => removeAll m
  | .checkTimeout i => code.checkTimeout i
  | .handleRpcMsg m rpcMeta data context => code.handleRpcMsg m rpcMeta data context
  | .causeTimeout m seq_id => code.causeTimeout m seq_id
  | .fulfil promise outcome => code.fulfil promise outcome

end manager

end ProcessCode

abbrev ProcessThread (queue : PriorityQueue WaitResponseTimer WaitResponseTimer.le)
    (μ ι ν D H T Msg Ctx U : Type) : Type :=
  Thread (Process queue μ ι ν D H T U) (Lock μ ι) (LibraryCall μ ι ν D H T Msg Ctx) (Except Exn Unit)

end operations

end GayRpc
