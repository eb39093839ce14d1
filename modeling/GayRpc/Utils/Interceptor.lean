import GayRpc.Core.Interceptor
import GayRpc.Core.StringView

/-!
# The interceptors of the library

`UtilsInterceptor.h`. Reading and writing the session shows up as an event; what is written is the
subject of the protocol modules.

    withSessionBinarySender    writes the message to the session, and calls its continuation
    withHttpSessionSender      the same over HTTP, and shuts the session down
    withProtectedCall          calls its continuation, and makes a future with the text of what it throws
    withTimeoutCheck           gives the event loop a timer, if the request has a timeout
    withEventLoop              is in a module of its own

The lambda of the timer is `causeTimeout`, which makes up a response and has it dispatched. It catches
whatever the dispatch throws.
-/

namespace GayRpc

/-- What is done to the session of a connection, and what the interceptors of the user come to
see. -/
inductive SessionEvent where
  /-- the `j`-th interceptor of the user is called -/
  | seen (j : ℕ)
  /-- `binary::send` -/
  | binarySend
  /-- `http::send` -/
  | httpSend
  | postShutdown
  deriving DecidableEq

variable {σ E Msg Ctx : Type}

def withProtectedCall : UnaryServerInterceptor σ E Msg Ctx := fun args =>
  .ask args fun reply =>
    match reply.result with
    | .ok _ => .ret reply
    | .error e => .ret { reply with result := .ok (.ready (.value (some e.caughtText))) }

def withSessionBinarySender : UnaryServerInterceptor σ SessionEvent Msg Ctx := fun args =>
  .emit .binarySend (.ask args .ret)

def withHttpSessionSender : UnaryServerInterceptor σ SessionEvent Msg Ctx := fun args =>
  .emit .httpSend (.emit .postShutdown (.ask args .ret))

/-! ## Timeouts -/

/-- A timer that an event loop was given by `runAfter`. `owner` tells which client's chain gave it;
the program does not look at it. -/
structure EventLoopTimer (ι : Type) where
  owner : ι
  seqID : UInt64
  seconds : UInt64
  deriving DecidableEq

instance [DecidableEq ι] : LawfulBEq (EventLoopTimer ι) := inferInstance

/-- An event loop, and what else the interceptors of a process keep. -/
structure EventLoop (ι U : Type) where
  timers : List (EventLoopTimer ι) := []
  user : U

def EventLoop.runAfter {ι U : Type} (timer : EventLoopTimer ι) (l : EventLoop ι U) : EventLoop ι U :=
  { l with timers := l.timers ++ [timer] }

/-- `withTimeoutCheck`, in the outbound chain of the client `owner`. -/
def withTimeoutCheck {ι U : Type} (owner : ι) : UnaryServerInterceptor (EventLoop ι U) E Msg Ctx :=
  fun args =>
    if args.rpcMeta.hasRequestInfo ∧ args.rpcMeta.requestInfo.timeout > 0 then
      -- the lambda has captured the table of handles and the id of the call
      .act (fun l => some (l.runAfter
          { owner := owner
            seqID := args.rpcMeta.requestInfo.sequenceId
            seconds := args.rpcMeta.requestInfo.timeout })) fun _ =>
        .ask args .ret
    else .ask args .ret

/-- `timeoutMeta`. The service id is not set. -/
def timeoutMeta (seq_id : UInt64) : RpcMeta :=
  { type := .response
    response := some { timeout := true, sequenceId := seq_id } }

/-- `causeTimeout`; no exception gets out of it. -/
def causeTimeout {S : Type}
    (handleRpcMsg : RpcMeta → StringView → Ctx → Prog S E Empty Empty (Except Exn Unit))
    (seq_id : UInt64) (context : Ctx) : Prog S E Empty Empty (Except Exn Unit) :=
  (handleRpcMsg (timeoutMeta seq_id) { base := [], offset := 0, size := 0 } context).bind fun _ =>
    .ret (.ok ())

open Prog

theorem withProtectedCall_emits (args : Args Msg Ctx) :
    Emits [none] (withProtectedCall args : Prog σ E _ _ _) := by
  refine .ask args fun reply => ?_
  cases reply.result with
  | ok f => exact .ret reply
  | error e => exact .ret _

theorem withSessionBinarySender_emits (args : Args Msg Ctx) :
    Emits [some .binarySend, none] (withSessionBinarySender args : Prog σ _ _ _ _) :=
  .emit _ (.ask args fun r => .ret r)

theorem withHttpSessionSender_emits (args : Args Msg Ctx) :
    Emits [some .httpSend, some .postShutdown, none] (withHttpSessionSender args : Prog σ _ _ _ _) :=
  .emit _ (.emit _ (.ask args fun r => .ret r))

end GayRpc
