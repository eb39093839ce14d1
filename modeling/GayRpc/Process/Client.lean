import GayRpc.Client.Pending
import GayRpc.Process.Basic

/-!
# A client of a process

A client whose interceptors leave the library alone, and whose callbacks use nothing of it but the client
itself. Without what they show, its operations are those that `Core.Client` has for it, section by section:
the locks of a process stand around what are single steps there.

So what was proved of `Core.Client`, where a section is one atomic step, is about the client of a process,
where it is a piece of code between the taking and the giving back of a lock. The two models were written
down separately, from the same source; that they agree is one equation for each operation (`call`,
`checkTimeout`, `processRpcResponse`), between programs whose events are left out, since the one shows
locks and the other messages.
-/

namespace GayRpc

variable {queue : PriorityQueue WaitResponseTimer WaitResponseTimer.le}
  {μ ι ν D H T Msg Ctx U R F : Type}

open Prog

namespace Process

variable [DecidableEq ι] (i : ι) (s : Process queue μ ι ν D H T U)

def host : Host queue D H T U := { client := s.clients i, clock := s.clock, user := s.user }

def setHost (h : Host queue D H T U) : Process queue μ ι ν D H T U :=
  { s.setUser h.user with clients := Function.update s.clients i h.client, clock := h.clock }

@[simp] theorem setHost_host : s.setHost i (s.host i) = s := by
  show { s with clients := Function.update s.clients i (s.clients i) } = s
  rw [Function.update_eq_self]

@[simp] theorem setHost_setUser (u : U) : s.setHost i ((s.host i).setUser u) = s.setUser u :=
  (s.setUser u).setHost_host i

/-- What code of the user does with its own state. -/
theorem map_setUser (o : Option U) : (o.map (s.host i).setUser).map (s.setHost i) = o.map s.setUser := by
  cases o with
  | none => rfl
  | some u => exact congrArg some (s.setHost_setUser i u)

end Process

/-- A chain that leaves the library alone. -/
def plainChain (p : Prog U Empty (Args Msg Ctx) Reply Reply) :
    Prog U Empty (Args Msg Ctx ⊕ LibraryCall μ ι ν D H T Msg Ctx) (Reply ⊕ Except Exn Unit) Reply :=
  p.plug (fun _ args => .ask (.inl args) fun answer => answer.elim .ret fun _ => .halt) id ()

/-- A callback that uses its own client. -/
def ownCalls (i : ι) (p : Prog U Empty (CallRequest D H T Msg) (Except Exn Unit) R) :
    UserProg μ ι ν D H T Msg Ctx U R :=
  p.plug (fun _ r => .ask (.call i r) .ret) id ()

/-- The code of a client as a part of the code of a process. -/
structure ClientCode.RunsIn (own : ClientCode D H T Msg Ctx U)
    (code : ProcessCode μ ι ν D H T Msg Ctx U) (i : ι) : Prop where
  codec : code.codec = own.codec
  emptyContext : code.emptyContext = own.emptyContext
  inbound : ∀ args, code.clientInbound i args = plainChain (own.inbound args)
  outbound : ∀ args, code.clientOutbound i args = plainChain (own.outbound args)
  handle : ∀ handle message error,
    code.handle handle message error = ownCalls i (own.handle handle message error)
  timeout : ∀ callback, code.timeout callback = ownCalls i (own.timeout callback)

/-- A program of a client on the state of the process, without what it shows. -/
def onHost [DecidableEq ι] {E : Type} (i : ι) (p : Prog (Host queue D H T U) E Empty Empty R) :
    Prog (Process queue μ ι ν D H T U) F Empty Empty R :=
  p.quiet.lift (Process.host i) (Process.setHost i)

/-- A program of the library, its calls answered by `answer`, without what it shows. -/
def answered (answer : LibraryCall μ ι ν D H T Msg Ctx →
      Prog (Process queue μ ι ν D H T U) F Empty Empty (Except Exn Unit))
    (p : LibraryProg queue μ ι ν D H T Msg Ctx U R) :
    Prog (Process queue μ ι ν D H T U) F Empty Empty R :=
  p.quiet.plug (fun _ => answer) id ()

section equations

variable {answer : LibraryCall μ ι ν D H T Msg Ctx →
  Prog (Process queue μ ι ν D H T U) F Empty Empty (Except Exn Unit)}

theorem answered_bind {R' : Type} (p : LibraryProg queue μ ι ν D H T Msg Ctx U R)
    (k : R → LibraryProg queue μ ι ν D H T Msg Ctx U R') :
    answered answer (p.bind k) = (answered answer p).bind fun r => answered answer (k r) := by
  unfold answered
  rw [quiet_bind, plug_bind]

variable [DecidableEq ι] {E : Type} {i : ι}

theorem onHost_bind {R' : Type} (p : Prog (Host queue D H T U) E Empty Empty R)
    (k : R → Prog (Host queue D H T U) E Empty Empty R') :
    (onHost i (p.bind k) : Prog (Process queue μ ι ν D H T U) F Empty Empty R') =
      (onHost i p).bind fun r => onHost i (k r) := by
  unfold onHost
  rw [quiet_bind, lift_bind]

/-- A section of the client, and what follows it under the guard and after. -/
theorem answered_underGuard {R' : Type} (f : BaseClient queue D H T → BaseClient queue D H T)
    (found : BaseClient queue D H T → R) (k : R → LibraryProg queue μ ι ν D H T Msg Ctx U R') :
    answered answer ((underGuard i f found).bind k) =
      .act (Process.onClient i f) fun s => answered answer (k (found (s.clients i))) := rfl

theorem onHost_onClient (f : BaseClient queue D H T → BaseClient queue D H T)
    (k : Host queue D H T U → Prog (Host queue D H T U) E Empty Empty R) :
    (onHost i (.act (Host.onClient f) k) : Prog (Process queue μ ι ν D H T U) F Empty Empty R) =
      .act (Process.onClient i f) fun s => onHost i (k (s.host i)) := rfl

/-- The clock is read. -/
theorem onHost_read (k : Host queue D H T U → Prog (Host queue D H T U) E Empty Empty R) :
    (onHost i (.act some k) : Prog (Process queue μ ι ν D H T U) F Empty Empty R) =
      .act some fun s => onHost i (k (s.host i)) := by
  have hread : (fun s : Process queue μ ι ν D H T U => (some (s.host i)).map (s.setHost i)) = some :=
    funext fun s => congrArg some (s.setHost_host i)
  exact congrArg (act · _) hread

/-- A chain, when its continuation is the same. -/
theorem answered_runChain {next : Bool → Args Msg Ctx → LibraryProg queue μ ι ν D H T Msg Ctx U Reply}
    {next' : UnaryHandler (Host queue D H T U) E Msg Ctx}
    (hnext : ∀ first args, answered answer (next first args) = onHost i (next' args)) (first : Bool)
    (p : Prog U Empty (Args Msg Ctx) Reply Reply) :
    answered answer (runChain next first (plainChain p)) =
      onHost i ((p.lift Host.user Host.setUser).plug (fun _ => next') id ()) := by
  induction p generalizing first with
  | ret reply => rfl
  | halt => rfl
  | ask args k ih =>
      show answered answer ((next first args).bind _) = onHost i ((next' args).bind _)
      rw [answered_bind, onHost_bind, hnext]
      exact bind_congr fun reply => ih reply false
  | act f k ih =>
      refine congrArg₂ act (funext fun s => ?_) (funext fun s => ih s.user first)
      exact (s.map_setUser i (f s.user)).symm
  | emit e k ih => exact e.elim
  | fork p k ihp ihk => exact congrArg₂ fork (ihp first) (ihk first)

/-- A callback, when its calls are the same. -/
theorem answered_ownCalls {own : ClientCode D H T Msg Ctx U}
    (hanswer : ∀ r, answer (.call i r) = onHost i (GayRpc.call own r))
    (p : Prog U Empty (CallRequest D H T Msg) (Except Exn Unit) (Except Exn Unit)) :
    answered answer (runUserCode (ownCalls i p)) = onHost i (runUser own p) := by
  unfold runUser
  induction p with
  | ret r => rfl
  | halt => rfl
  | ask r k ih =>
      show (answer (.call i r)).bind _ = onHost i ((GayRpc.call own r).bind _)
      rw [hanswer, onHost_bind]
      exact bind_congr ih
  | act f k ih =>
      refine congrArg₂ act (funext fun s => ?_) (funext fun s => ih s.user)
      exact (s.map_setUser i (f s.user)).symm
  | emit e k ih => exact e.elim
  | fork p k ihp ihk => exact congrArg₂ fork ihp ihk

end equations

/-! ## The operations -/

namespace ClientCode.RunsIn

variable [DecidableEq ι] {own : ClientCode D H T Msg Ctx U} {code : ProcessCode μ ι ν D H T Msg Ctx U}
  {i : ι} (h : own.RunsIn code i)
  {answer : LibraryCall μ ι ν D H T Msg Ctx →
    Prog (Process queue μ ι ν D H T U) F Empty Empty (Except Exn Unit)}

include h

theorem sendRequest (rpcMeta : RpcMeta) (message : Msg) :
    answered answer (sendOut (code.clientOutbound i) rpcMeta message code.emptyContext) =
      onHost i (GayRpc.sendRequest own rpcMeta message) := by
  unfold sendOut
  rw [answered_bind, h.outbound, h.emptyContext, answered_runChain]
  · show _ = onHost i (Prog.bind _ _)
    rw [onHost_bind, UnaryServerInterceptor.call, lift_plug]
    rfl
  · exact fun _ _ => rfl

theorem call (r : CallRequest D H T Msg) :
    answered answer (code.call i r) = onHost i (GayRpc.call own r) := by
  refine act_congr (f := Process.onClient i BaseClient.allocate) fun s => ?_
  cases r.timed with
  | some timed =>
      dsimp only
      refine Eq.trans (act_congr (f := some) fun s' => ?_) (onHost_read _).symm
      exact act_congr fun _ => h.sendRequest _ _
  | none =>
      dsimp only
      split_ifs
      · exact act_congr fun _ => h.sendRequest _ _
      · exact h.sendRequest _ _

variable (hanswer : ∀ r, answer (.call i r) = onHost i (GayRpc.call own r))

include hanswer

theorem runTimeout (received : UInt64) (timeoutCallback : TimeoutCallback T) :
    answered answer (code.runTimeout timeoutCallback) =
      onHost i (GayRpc.runTimeout own received timeoutCallback) := by
  unfold ProcessCode.runTimeout GayRpc.runTimeout
  cases timeoutCallback.callback with
  | none => rfl
  | some callback =>
      dsimp only
      rw [h.timeout]
      exact answered_ownCalls hanswer _

theorem runHandle (received : UInt64) (stub : ResponseStub D H) (message : Msg) (error : Option RpcError) :
    answered answer (code.runHandle stub message error) =
      onHost i (GayRpc.runHandle own received stub message error) := by
  unfold ProcessCode.runHandle GayRpc.runHandle
  cases stub.handle with
  | none => rfl
  | some handle =>
      dsimp only
      rw [h.handle]
      exact answered_ownCalls hanswer _

theorem runCallbacks (callbacks : List (UInt64 × TimeoutCallback T)) :
    answered answer (code.runCallbacks callbacks) = onHost i (GayRpc.runCallbacks own callbacks) := by
  induction callbacks with
  | nil => rfl
  | cons callback callbacks ih =>
      unfold ProcessCode.runCallbacks GayRpc.runCallbacks
      rw [answered_bind, onHost_bind, h.runTimeout hanswer callback.1]
      refine bind_congr fun result => ?_
      cases result with
      | ok _ => exact ih
      | error e => rfl

theorem checkTimeout :
    answered answer (code.checkTimeout i) = onHost i (GayRpc.checkTimeout own) := by
  refine Eq.trans (act_congr (f := some) fun s => ?_) (onHost_read _).symm
  exact act_congr fun s' => h.runCallbacks hanswer _

theorem parseResponseWrapper (received : UInt64) (stub : ResponseStub D H) (rpcMeta : RpcMeta)
    (data : StringView) (context : Ctx) :
    answered answer (code.parseResponseWrapper i stub rpcMeta data context) =
      onHost i (GayRpc.parseResponseWrapper own.codec stub.type (GayRpc.runHandle own received stub) rpcMeta
        data own.mInboundInterceptor context) := by
  unfold ProcessCode.parseResponseWrapper GayRpc.parseResponseWrapper
  rw [h.codec]
  cases parseMessage own.codec "response" stub.type rpcMeta.encoding data with
  | error e => rfl
  | ok response =>
      dsimp only
      rw [h.inbound]
      apply answered_runChain
      intro first args
      rw [answered_bind, onHost_bind, h.runHandle hanswer received]
      refine bind_congr fun result => ?_
      cases result with
      | ok _ => rfl
      | error e => rfl

theorem processRpcResponse (rpcMeta : RpcMeta) (data : StringView) (context : Ctx) :
    answered answer (code.processRpcResponse i rpcMeta data context) =
      onHost i (GayRpc.processRpcResponse own rpcMeta data context) := by
  unfold ProcessCode.processRpcResponse GayRpc.processRpcResponse
  -- not a response, a timeout, or a response to a stub
  split_ifs
  · rfl
  · rw [answered_underGuard, onHost_onClient]
    refine act_congr fun s => ?_
    dsimp only [Process.host]
    cases (s.clients i).mTimeoutHandleMap.lookup rpcMeta.responseInfo.sequenceId with
    | none => rfl
    | some timeoutHandler =>
        dsimp only
        split_ifs
        · exact h.runTimeout hanswer _ timeoutHandler
        · rfl
  · rw [answered_underGuard, onHost_onClient]
    refine act_congr fun s => ?_
    dsimp only [Process.host]
    cases (s.clients i).mStubHandleMap.lookup rpcMeta.responseInfo.sequenceId with
    | none => rfl
    | some stub =>
        dsimp only
        rw [runStub, answered_bind, onHost_bind, h.parseResponseWrapper hanswer]
        rfl

end ClientCode.RunsIn

end GayRpc
