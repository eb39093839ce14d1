import GayRpc.Core.Helper
import GayRpc.Core.Reply
import Mathlib.Data.Finmap

/-!
# Request stubs

What the generator makes of a service: a stub for each method, and the `requestStub` that `Install`
registers, which finds the method, runs the inbound chain, and reports the errors of the chain.

    requestStub
      findHandler                the method, by its id or by its name, or an error that is sent back
      methodStub                 parseRequestWrapper, around the inbound chain
        methodHandler            a reply object is made, and the method is called with it
      afterHandler               what the chain has come back with
        reportOutcome            an error of a future that is ready
        reportPromise            the future is not ready: look again, by isReady(), or wait
          reportLater            the lambda of thenValue, when the promise is fulfilled

An exception of the chain that no interceptor catches goes through the stub to the one who has called it.
A future that is ready holds an error text or nothing, or an exception; an exception that is no
`std::exception` makes the stub use a null pointer, and the model stops there.

The test of a future that was pending when the chain returned is a step of its own. The promise may have
been fulfilled by then: an exception counts in that case, while one that comes later is dropped, since
`thenValue` is for values only. The ids that an error is sent to are read off the meta of the request
after all this, and not before.
-/

namespace GayRpc

/-- A method of a service: the class of its requests, and the code of the user, whose questions are the
calls on its reply object. -/
structure ServiceMethod (D Msg Ctx U : Type) where
  type : D
  run : Msg → Ctx → Prog (Promises U) Empty (ReplyCall Msg Ctx) (Except Exn Unit) (Except Exn Unit)

/-- A service with the code of the user around it. -/
structure ServiceCode (D Msg Ctx U : Type) where
  codec : MessageCodec D Msg
  inboundInterceptor : UnaryServerInterceptor (Promises U) Empty Msg Ctx
  outboundInterceptor : UnaryServerInterceptor U Empty Msg Ctx
  serviceHandlerMapById : Finmap fun _ : UInt64 => ServiceMethod D Msg Ctx U
  serviceHandlerMapByStr : Finmap fun _ : String => ServiceMethod D Msg Ctx U
  emptyContext : Ctx
  noMessage : Msg

namespace ServiceCode

variable {D Msg Ctx U : Type} (code : ServiceCode D Msg Ctx U)

/-- The search for the method; the error is the text that is sent back. -/
def findHandler (rpcMeta : RpcMeta) : Except String (ServiceMethod D Msg Ctx U) :=
  if rpcMeta.requestInfo.strMethod ≠ "" then
    match code.serviceHandlerMapByStr.lookup rpcMeta.requestInfo.strMethod with
    | some handler => .ok handler
    | none => .error ("not found handle, method:" ++ rpcMeta.requestInfo.strMethod)
  else
    match code.serviceHandlerMapById.lookup rpcMeta.requestInfo.intMethod with
    | some handler => .ok handler
    | none => .error ("not found handle, method:" ++ toString rpcMeta.requestInfo.intMethod)

/-- The lambda at the end of the inbound chain. It moves the meta it is called with into the reply
object, and at its first call also its outbound interceptor. -/
def methodHandler (method : ServiceMethod D Msg Ctx U) (first : Bool) :
    UnaryHandler (Server U) (ServiceEvent Msg) Msg Ctx := fun args =>
  .act (fun s => some { s with replies := s.replies + 1 }) fun s =>
    let replyObject : BaseReply :=
      { number := s.replies, mRequestMeta := args.rpcMeta, hasOutboundInterceptor := first }
    (((method.run args.message args.context).lift Server.promises Server.setPromises).plug
      (fun _ call => replyObject.run code.outboundInterceptor code.noMessage call) id ()).bind fun
        | .ok () => .ret { result := .ok (.ready (.value none)), rpcMeta := {} }
        | .error e => .ret { result := .error e, rpcMeta := {} }

/-- The stub of a method, such as `Echo_stub`. -/
def methodStub (method : ServiceMethod D Msg Ctx U) (rpcMeta : RpcMeta) (data : StringView)
    (context : Ctx) : ServerProg U Msg Reply :=
  parseRequestWrapper code.codec method.type rpcMeta data
    (fun args => (code.inboundInterceptor args).lift Server.promises Server.setPromises)
    (code.methodHandler method) context

/-- An error of the chain is sent back, to the ids that the meta of the request has by then. -/
def reportError (rpcMeta : RpcMeta) (err : String) : ServerProg U Msg (Except Exn Unit) :=
  ReplyError code.outboundInterceptor code.noMessage none rpcMeta.serviceId
    rpcMeta.requestInfo.sequenceId 0 err code.emptyContext

/-- A future that is ready has an error string or none, or an exception. -/
def reportOutcome (rpcMeta : RpcMeta) : Outcome → ServerProg U Msg (Except Exn Unit)
  | .value none => .ret (.ok ())
  | .value (some err) => code.reportError rpcMeta err
  | .exception e =>
    -- `get_exception()` is null for what is not a `std::exception`, and using it is undefined
    if e = .unknown then .halt else code.reportError rpcMeta e.caughtText

/-- The lambda that `thenValue` runs when the promise is fulfilled. Nothing happens when the promise ends
with an exception. -/
def reportLater (rpcMeta : RpcMeta) (promise : ℕ) : ServerProg U Msg (Except Exn Unit) :=
  .act (fun s => if (s.promises.fulfilled promise).isSome then some s else none) fun s =>
    match s.promises.fulfilled promise with
    | some (.value (some err)) => code.reportError rpcMeta err
    | _ => .halt

/-- What the stub does about a promise that it has looked at, by `isReady()`, when its state was
`outcome`. -/
def reportPromise (rpcMeta : RpcMeta) (promise : ℕ) (outcome : Option Outcome) :
    ServerProg U Msg (Except Exn Unit) :=
  match outcome with
  | some o => code.reportOutcome rpcMeta o
  | none => .fork (code.reportLater rpcMeta promise) (.ret (.ok ()))

/-- The end of `requestStub`, with what the chain came back with. The meta is looked at again. -/
def afterHandler (reply : Reply) : ServerProg U Msg (Except Exn Unit) :=
  match reply.result with
  | .error e => .ret (.error e)
  | .ok (.ready o) => code.reportOutcome reply.rpcMeta o
  | .ok (.pending promise) =>
    -- the promise may have been fulfilled since the chain made it
    .act some fun s => code.reportPromise reply.rpcMeta promise (s.promises.fulfilled promise)

def requestStub (rpcMeta : RpcMeta) (data : StringView) (context : Ctx) :
    ServerProg U Msg (Except Exn Unit) :=
  if rpcMeta.type ≠ .request then
    .ret (.error (.runtimeError ("meta type not request, It is:" ++ rpcMeta.type.toText)))
  else
    match code.findHandler rpcMeta with
    | .error what => code.reportError rpcMeta what
    | .ok handler => (code.methodStub handler rpcMeta data context).bind code.afterHandler

end ServiceCode

end GayRpc
