import GayRpc.Core.Interceptor
import GayRpc.Lib.Guarantee

/-!
# Replies

`GayRpcReply.h`. A reply object is made of the meta of a request, which is moved into it, and gives one
answer at most: whoever calls it first finds `mReplyFlag` clear, and all others get an exception.

Two things are shown. A call on a reply object shows itself as soon as it has tested the flag, whatever
comes of it. And a response shows itself when it is handed to the outbound interceptor, by a reply
object or by the static `ReplyError`, which the stub calls when it has an error to report itself. The
`origin` of a response says which of the two it was.

The outbound interceptor is captured by the handler lambda of the stub and moved out of it when the first
reply object is made. If the inbound chain calls its continuation twice, the second reply object is
made without one. Then it has nobody to hand its answer to: the call of the empty function throws, after the
flag has been set.

`Server` is what the threads of a service share: the flags, by the numbers of the objects, and the
promises of the inbound interceptors (`Promises`), of which the code of the user may fulfil any at any
time.
-/

namespace GayRpc

/-- What the inbound interceptors of a service keep: whatever they like, and which of the promises they
made are fulfilled. -/
structure Promises (U : Type) where
  user : U
  made : ℕ := 0
  fulfilled : ℕ → Option Outcome := fun _ => none

/-- What the threads of a service share. The reply objects are numbered, and `mReplyFlag` holds the
flag of each. -/
structure Server (U : Type) where
  promises : Promises U
  replies : ℕ := 0
  mReplyFlag : ℕ → Bool := fun _ => false

namespace Server

variable {U : Type}

def user (s : Server U) : U := s.promises.user

def setUser (s : Server U) (u : U) : Server U := { s with promises := { s.promises with user := u } }

def setPromises (s : Server U) (p : Promises U) : Server U := { s with promises := p }

/-- `test_and_set` of a flag. -/
def setFlag (number : ℕ) (s : Server U) : Server U :=
  { s with mReplyFlag := fun n => n = number || s.mReplyFlag n }

end Server

/-- The meta that `BaseReply::reply` sends. -/
def replyMeta (mRequestMeta : RpcMeta) : RpcMeta :=
  { type := .response
    serviceId := mRequestMeta.serviceId
    response := some
      { sequenceId := mRequestMeta.requestInfo.sequenceId, failed := false, timeout := false } }

/-- The meta that `ReplyError` sends. -/
def errorMeta (serviceId : UInt32) (seqId : UInt64) (errorCode : Int32) (reason : String) : RpcMeta :=
  { type := .response
    encoding := .binary
    serviceId := serviceId
    response := some
      { sequenceId := seqId, failed := true, errorCode := errorCode, reason := reason
        timeout := false } }

/-- `BaseReply`. Its outbound interceptor is empty when what it was made of had been moved away. -/
structure BaseReply where
  number : ℕ
  mRequestMeta : RpcMeta
  hasOutboundInterceptor : Bool
  deriving DecidableEq

/-- What a service may do with a reply object. -/
inductive ReplyCall (Msg Ctx : Type) where
  | reply (response : Msg) (context : Ctx)
  | error (errorCode : Int32) (reason : String) (context : Ctx)

def ReplyCall.bare {Msg Ctx : Type} : ReplyCall Msg Ctx → ReplyCall Msg Unit
  | reply response _ => .reply response ()
  | error errorCode reason _ => .error errorCode reason ()

/-- `first` says whether the call has found the flag of the object clear. The `origin` of a response is
the reply object that gives it; the stub itself has none. -/
inductive ServiceEvent (Msg : Type) where
  | called (object : BaseReply) (call : ReplyCall Msg Unit) (first : Bool)
  | response (origin : Option BaseReply) (rpcMeta : RpcMeta) (message : Msg)

section reply

variable {Msg Ctx U : Type} (outboundInterceptor : UnaryServerInterceptor U Empty Msg Ctx)

abbrev ServerProg (U Msg R : Type) : Type := Prog (Server U) (ServiceEvent Msg) Empty Empty R

def sendResponse (origin : Option BaseReply) (rpcMeta : RpcMeta) (message : Msg) (context : Ctx) :
    ServerProg U Msg (Except Exn Unit) :=
  .emit (.response origin rpcMeta message)
    (((outboundInterceptor.call emptyHandler
      { rpcMeta := rpcMeta, message := message, context := context }).lift Server.user
        Server.setUser).bind fun reply => .ret reply.thrown)

/-- `BaseReply::ReplyError`; `noMessage` is `RpcMeta{}` as a message. -/
def ReplyError (noMessage : Msg) (origin : Option BaseReply) (serviceId : UInt32) (seqId : UInt64)
    (errorCode : Int32) (reason : String) (context : Ctx) : ServerProg U Msg (Except Exn Unit) :=
  sendResponse outboundInterceptor origin (errorMeta serviceId seqId errorCode reason) noMessage context

namespace BaseReply

/-- What `reply` and `error` have in common: they answer once, and only if an answer is expected. -/
def answer (object : BaseReply) (call : ReplyCall Msg Unit)
    (send : ServerProg U Msg (Except Exn Unit)) : ServerProg U Msg (Except Exn Unit) :=
  .act (fun s => some (s.setFlag object.number)) fun s =>
    .emit (.called object call !s.mReplyFlag object.number)
      -- `s` is the state before the flag was set
      (if s.mReplyFlag object.number then .ret (.error (.runtimeError "already reply"))
      else if !object.mRequestMeta.requestInfo.expectResponse then .ret (.ok ())
      else if object.hasOutboundInterceptor then send
      else .ret (.error .badFunctionCall))

def reply (object : BaseReply) (response : Msg) (context : Ctx) :
    ServerProg U Msg (Except Exn Unit) :=
  object.answer (.reply response ()) (sendResponse outboundInterceptor (some object)
    (replyMeta object.mRequestMeta) response context)

def error (noMessage : Msg) (object : BaseReply) (errorCode : Int32) (reason : String)
    (context : Ctx) : ServerProg U Msg (Except Exn Unit) :=
  object.answer (.error errorCode reason ()) (ReplyError outboundInterceptor noMessage (some object)
    object.mRequestMeta.serviceId object.mRequestMeta.requestInfo.sequenceId errorCode reason context)

def run (noMessage : Msg) (object : BaseReply) :
    ReplyCall Msg Ctx → ServerProg U Msg (Except Exn Unit)
  | .reply response context => object.reply outboundInterceptor response context
  | .error errorCode reason context =>
    object.error outboundInterceptor noMessage errorCode reason context

end BaseReply

end reply

end GayRpc
