import GayRpc.Client.AtMostOnce
import GayRpc.Connection.Routing

/-!
# Deliveries

A response finds its client by the service id alone, and of the clients that share an id the first
one created gets all responses, until any of them is uninstalled. So deliveries are right just when no
two clients have one id.

What is right is said by `NoCrossDelivery`: a response never runs a callback of another request; it gets to
the client that has issued the request, as long as that client is installed; and if the call waits there, and
the response can be read, then the response can be handled to the end, and whoever has handled it has run
the handle of that call.

One direction is about all runs, and rests on the table fitting the clients (`run_routed`). The other one
is a run: two clients are created under one id, and the second one makes a call. The response to it is
dispatched to the first one, which does not know of it (`sharedId_handled`).
-/

namespace GayRpc

variable {queue : PriorityQueue WaitResponseTimer WaitResponseTimer.le} {ι D H T Msg Ctx U : Type}
  [DecidableEq ι]

structure Connection.Answers (ids : ι → UInt32) (i : ι) (rpcMeta : RpcMeta)
    (s : Connection queue ι D H T U) : Prop where
  type : rpcMeta.type = .response
  serviceId : rpcMeta.serviceId = ids i
  issued : s.issued i rpcMeta.responseInfo.sequenceId

/-- The clients with the ids `ids` do not get into each other's way, in all runs from `s₀`. -/
structure NoCrossDelivery (ids : ι → UInt32) (code : ConnectionCode ι D H T Msg Ctx U)
    (s₀ : Connection queue ι D H T U) : Prop where
  /-- the response to a request runs no callback but that of the request -/
  own : ∀ {es s ts}, Pool.Run (connectionWorld ids code) ⟨s₀, []⟩ es ⟨s, ts⟩ →
    ∀ i q j e, .client (.response i q) j e ∈ es → j = i ∧ e.BelongsTo q
  /-- whoever else was uninstalled, a client that is installed gets the response -/
  reaches : ∀ {es s ts}, Pool.Run (connectionWorld ids code) ⟨s₀, []⟩ es ⟨s, ts⟩ →
    ∀ i rpcMeta data context, s.Installed i → s.Answers ids i rpcMeta →
      ∃ b, Pool.Run (World.alone fun _ => True) ⟨s, [respond code i rpcMeta data context]⟩
        [.handled (.response i rpcMeta.responseInfo.sequenceId) i] b
  /-- and runs the handle of the request, if it waits and the response can be read -/
  invokes : ∀ {es s ts}, Pool.Run (connectionWorld ids code) ⟨s₀, []⟩ es ⟨s, ts⟩ →
    ∀ i rpcMeta data context stub handle message, s.Installed i → s.Answers ids i rpcMeta →
      rpcMeta.responseInfo.timeout = false →
      s.stub i rpcMeta.responseInfo.sequenceId = some stub → stub.handle = some handle →
      parseMessage code.codec "response" stub.type rpcMeta.encoding data = .ok message →
      code.inbound i = makeInterceptor [] →
      (∃ es' s', (respond code i rpcMeta data context).RunsTo s es' s') ∧
        ∀ es' s', (respond code i rpcMeta data context).RunsTo s es' s' →
          .client (.response i rpcMeta.responseInfo.sequenceId) i
            (.handle rpcMeta.responseInfo.sequenceId rpcMeta.responseInfo.sequenceId message
              rpcMeta.error) ∈ es'

open Prog Connection

variable {ids : ι → UInt32} {code : ConnectionCode ι D H T Msg Ctx U}
  {s s' : Connection queue ι D H T U} {i : ι} {rpcMeta : RpcMeta} {data : StringView} {context : Ctx}

theorem Connection.Routed.handleRpcMsg_eq (hs : s.Routed ids) (hinst : s.Installed i)
    (hans : s.Answers ids i rpcMeta) : s.manager.handleRpcMsg rpcMeta = .ok i := by
  rw [RpcTypeHandleManager.handleRpcMsg_eq_ok_iff, hans.type, hans.serviceId]
  exact hs.find_iff.mpr ⟨hinst, rfl⟩

/-- A response begins with a look into the table. -/
theorem next_respond (h : s.issued i rpcMeta.responseInfo.sequenceId) :
    (respond code i rpcMeta data context : ConnectionProg queue ι D H T Msg U).next s =
      some ([], s, [callHandler code (.response i rpcMeta.responseInfo.sequenceId) rpcMeta data context
        (s.manager.handleRpcMsg rpcMeta)]) := by
  simp [respond, Connection.handleRpcMsg, Prog.onlyIf, Prog.next, h]

omit [DecidableEq ι] in
/-- The response to a call that waits runs the handle. -/
theorem runStub_eq (hin : code.inbound i = makeInterceptor []) {q : UInt64}
    {stub : ResponseStub D H} {handle : H} {message : Msg} (howner : stub.owner = q)
    (hhandle : stub.handle = some handle)
    (hparse : parseMessage code.codec "response" stub.type rpcMeta.encoding data = .ok message) :
    (runStub (code.client i) q stub rpcMeta data context :
        ClientProg queue D H T Msg (EventLoop ι U)) =
      .emit (.handle q q message rpcMeta.error)
        (.ret (code.handle handle message rpcMeta.error)) := by
  have hcodec : ((code.client i : ClientCode D H T Msg Ctx (EventLoop ι U))).codec = code.codec := rfl
  have hinbound : ((code.client i : ClientCode D H T Msg Ctx (EventLoop ι U))).inbound =
      makeInterceptor [] := hin
  have herror := rpcMeta.map_copy_error
  unfold RpcMeta.error at herror
  unfold runStub parseResponseWrapper
  rw [hcodec, hparse]
  dsimp only
  rw [herror]
  unfold UnaryServerInterceptor.call ClientCode.mInboundInterceptor
  rw [hinbound]
  -- a chain of no interceptors is the handler itself
  show (Prog.plug _ _ _ (Prog.ask _ _)).bind _ = _
  simp only [Prog.plug, runHandle, hhandle, howner]
  unfold RpcMeta.error
  refine congrArg (Prog.emit _) ?_
  show (Prog.bind (Prog.bind (Prog.ret (code.handle handle message _)) _) _).bind _ = _
  cases code.handle handle message _ with
  | ok _ => rfl
  | error _ => rfl

/-- A response to a call that waits, on its own: the client is found, the call is taken out, and the
handle is run. -/
theorem respond_runs (hs : s.Routed ids) (hinst : s.Installed i) (hans : s.Answers ids i rpcMeta)
    (hflag : rpcMeta.responseInfo.timeout = false) {stub : ResponseStub D H} {handle : H}
    {message : Msg} (hstub : s.stub i rpcMeta.responseInfo.sequenceId = some stub)
    (hhandle : stub.handle = some handle)
    (hparse : parseMessage code.codec "response" stub.type rpcMeta.encoding data = .ok message)
    (hin : code.inbound i = makeInterceptor []) :
    ∃ t, ∀ es s', (respond code i rpcMeta data context :
        ConnectionProg queue ι D H T Msg U).RunsTo s es s' ↔
      es = [.handled (.response i rpcMeta.responseInfo.sequenceId) i,
        .client (.response i rpcMeta.responseInfo.sequenceId) i
          (.handle rpcMeta.responseInfo.sequenceId rpcMeta.responseInfo.sequenceId message
            rpcMeta.error)] ∧ s' = t := by
  obtain ⟨c, hc, hstub⟩ := Option.bind_eq_some_iff.mp hstub
  have howner := (hs.consistent hc).stub_owner hstub
  have hfind := hs.handleRpcMsg_eq hinst hans
  have hhost : s.host? i = some { client := c, clock := s.clock, user := s.eventLoop } := by
    simp [host?, hc]
  -- past the section, the handle is all that is left to run
  have hafter : afterSection (code.client i) rpcMeta data context
      { client := c, clock := s.clock, user := s.eventLoop } =
        .emit (.handle rpcMeta.responseInfo.sequenceId rpcMeta.responseInfo.sequenceId message
          rpcMeta.error) (.ret (code.handle handle message rpcMeta.error)) := by
    unfold afterSection
    simp only [hflag, Bool.false_eq_true, if_false, hstub]
    exact runStub_eq hin howner hhandle hparse
  -- the table leads to the client itself
  have hrespond : ∀ es s', (respond code i rpcMeta data context :
        ConnectionProg queue ι D H T Msg U).RunsTo s es s' ↔
      (callHandler code (.response i rpcMeta.responseInfo.sequenceId) rpcMeta data context (.ok i) :
        ConnectionProg queue ι D H T Msg U).RunsTo s es s' := by
    intro es s'
    unfold respond Connection.handleRpcMsg onlyIf
    rw [runsTo_act, if_pos hans.issued, hfind]
    simp
  refine ⟨s.setHost i
    { client := c.forget rpcMeta.responseInfo.sequenceId, clock := s.clock, user := s.eventLoop },
    fun es s' => (hrespond es s').trans ?_⟩
  rw [callHandler, processRpcResponse_eq _ _ _ _ hans.type]
  simp only [onClient, Prog.within, runsTo_emit, runsTo_act, hhost, Option.bind_some,
    Option.elim_some, Host.onClient, Option.map_some, Option.some_inj, hafter, runsTo_ret,
    exists_eq_left']
  constructor
  · rintro ⟨fs, rfl, gs, rfl, rfl, rfl⟩
    exact ⟨rfl, rfl⟩
  · rintro ⟨rfl, rfl⟩
    exact ⟨_, rfl, _, rfl, rfl, rfl⟩

/-- With the ids apart nothing gets into the way. -/
theorem noCrossDelivery_of_injective (hids : Function.Injective ids) (clock : Int64) (user : U) :
    NoCrossDelivery ids code (.fresh clock user : Connection queue ι D H T U) where
  own hrun i q j e he := (run_routed hids hrun).2 _ he
  reaches hrun i rpcMeta data context hinst hans := by
    obtain ⟨hs, -⟩ := run_routed hids hrun
    have hnext : (respond code i rpcMeta data context : ConnectionProg queue ι D H T Msg U).next _ =
      _ := next_respond hans.issued
    rw [hs.handleRpcMsg_eq hinst hans] at hnext
    exact ⟨_, (Pool.Run.single (.thread [] [] hnext trivial)).tail (.emit [] [] _ trivial)⟩
  invokes hrun i rpcMeta data context stub handle message hinst hans hflag hstub hhandle hparse hin := by
    obtain ⟨t, hruns⟩ := respond_runs (run_routed hids hrun).1 hinst hans hflag hstub
      hhandle hparse hin
    refine ⟨⟨_, t, (hruns _ t).mpr ⟨rfl, rfl⟩⟩, fun es' s' hrespond => ?_⟩
    rw [((hruns es' s').mp hrespond).1]
    simp

/-! ## Two clients with one id -/

theorem Connection.host?_setHost (s : Connection queue ι D H T U) (i : ι)
    (h : Host queue D H T (EventLoop ι U)) : (s.setHost i h).host? i = some h := by
  simp [host?, setHost]

/-- A section of a client is a step of the connection. -/
theorem step_onClient {W : World (Connection queue ι D H T U) (ConnectionEvent ι Msg) Empty
      (Except Exn Unit)} {cause : Cause ι} {h h' : Host queue D H T (EventLoop ι U)}
    {f : Host queue D H T (EventLoop ι U) → Option (Host queue D H T (EventLoop ι U))}
    {k : Host queue D H T (EventLoop ι U) → ClientProg queue D H T Msg (EventLoop ι U)}
    (l r : List (ConnectionProg queue ι D H T Msg U)) (hs : s.host? i = some h) (hf : f h = some h')
    (hb : W.bound (s.setHost i h')) :
    Pool.Step W ⟨s, l ++ onClient cause i (.act f k) :: r⟩ []
      ⟨s.setHost i h', l ++ onClient cause i (k h) :: r⟩ := by
  have hstep : ((s.host? i).bind fun t => (f t).map (s.setHost i)) = some (s.setHost i h') := by
    simp [hs, hf]
  have hk : ((s.host? i).elim halt fun t => onClient cause i (k t)) = onClient cause i (k h) := by
    rw [hs]
    rfl
  rw [← hk]
  exact .act l r hstep hb

def firstResponse (id : UInt32) : RpcMeta :=
  { type := .response, serviceId := id, response := some {} }

def onceCalled [Inhabited D] [Inhabited H] : BaseClient queue D H T :=
  BaseClient.insertUntimed 0 { owner := 0, timed := false, type := default, handle := some default }
    (BaseClient.allocate {})

def sharedId [Inhabited D] [Inhabited H] (ids : ι → UInt32) (i j : ι) (clock : Int64) (user : U) :
    Connection queue ι D H T U :=
  { manager :=
      ((({} : RpcTypeHandleManager ι).registerTypeHandle .response i (ids i)).2.registerTypeHandle
        .response j (ids j)).2
    clients := ((((∅ : Finmap fun _ : ι => BaseClient queue D H T).insert i {}).insert j {}).insert j
      (BaseClient.allocate {})).insert j onceCalled
    clock := clock
    eventLoop := { user := user } }

variable [Inhabited D] [Inhabited H]

theorem sharedId_reachable [Inhabited Msg] {j : ι} (hne : j ≠ i) (clock : Int64) (user : U) :
    ∃ es ts, Pool.Run (connectionWorld ids code)
      ⟨(.fresh clock user : Connection queue ι D H T U), []⟩ es ⟨sharedId ids i j clock user, ts⟩ := by
  have hj : j ∉ (∅ : Finmap fun _ : ι => BaseClient queue D H T).insert i {} := by
    rw [Finmap.mem_insert]
    rintro (heq | hmem)
    · exact hne heq
    · exact Finmap.notMem_empty hmem
  let call : CallRequest D H T Msg := ⟨default, 0, 0, default, some default, none⟩
  have h1 : Pool.Run (connectionWorld ids code)
      ⟨(.fresh clock user : Connection queue ι D H T U), []⟩ [] ⟨_, [create ids i]⟩ :=
    .single (.spawn [] (.create i))
  have h2 := h1.tail (.act [] [] (if_neg Finmap.notMem_empty) trivial)
  have h3 := h2.tail (.spawn _ (.create j))
  have h4 := h3.tail (.act [] _ (if_neg hj) trivial)
  have h5 := h4.tail (.spawn _ (.request j call))
  have h6 := h5.tail (step_onClient [] _ (by simp [host?]; rfl) rfl trivial)
  have h7 := h6.tail (step_onClient [] _ (host?_setHost _ _ _) rfl trivial)
  -- the request is handed to the outbound chain
  have h8 := h7.tail (.emit [] _ _ trivial)
  exact ⟨_, _, h8⟩

theorem sharedId_issued (i j : ι) (clock : Int64) (user : U) :
    (sharedId ids i j clock user : Connection queue ι D H T U).issued j 0 := by
  simp [sharedId, issued, onceCalled, BaseClient.insertUntimed, BaseClient.allocate]

/-- The response to the second client goes to the first one. -/
theorem sharedId_handled {j : ι} (hid : ids j = ids i) {clock : Int64} {user : U} {k : ι}
    {b : Pool (Connection queue ι D H T U) (ConnectionEvent ι Msg) Empty (Except Exn Unit)}
    (h : Pool.Run (World.alone fun _ => True) ⟨sharedId ids i j clock user,
      [respond code j (firstResponse (ids j)) data context]⟩ [.handled (.response j 0) k] b) :
    k = i := by
  have hissued : (sharedId ids i j clock user : Connection queue ι D H T U).issued j 0 :=
    sharedId_issued i j clock user
  -- the client created first is the one registered under the id
  have hfind : (sharedId ids i j clock user : Connection queue ι D H T U).manager.handleRpcMsg
      (firstResponse (ids j)) = .ok i := by
    rw [RpcTypeHandleManager.handleRpcMsg_eq_ok_iff]
    show RpcTypeHandleManager.find .response (ids j) (RpcTypeHandleManager.registerTypeHandle _ j
      (ids j) _).2 = some i
    rw [RpcTypeHandleManager.find_registerTypeHandle, if_pos ⟨rfl, rfl⟩,
      RpcTypeHandleManager.find_registerTypeHandle, if_pos ⟨rfl, hid⟩]
    rfl
  -- with one thread alone the run is the sequence of its steps
  obtain hnil | ⟨es₁, es₂, s', ps, hn, hes, hrest⟩ := h.alone_cases
  · cases hnil
  · have hfirst : (firstResponse (ids j)).responseInfo.sequenceId = 0 := rfl
    rw [next_respond (hfirst ▸ hissued), hfind] at hn
    cases hn
    obtain rfl | ⟨fs₁, fs₂, s', ps, hn, rfl, -⟩ := hrest.alone_cases
    · cases hes
    · cases hn
      cases hes
      rfl

/-- Of two clients with one id, the second never gets a response. -/
theorem injective_of_noCrossDelivery [Inhabited Msg] {clock : Int64} {user : U}
    (h : NoCrossDelivery ids code (.fresh clock user : Connection queue ι D H T U)) :
    Function.Injective ids := by
  intro j i hid
  by_contra hne
  obtain ⟨es, ts, hrun⟩ : ∃ es ts, Pool.Run (connectionWorld ids code)
      ⟨(.fresh clock user : Connection queue ι D H T U), []⟩ es ⟨sharedId ids i j clock user, ts⟩ :=
    sharedId_reachable hne clock user
  have hinst : (sharedId ids i j clock user : Connection queue ι D H T U).Installed j :=
    ⟨Finmap.mem_insert.mpr (.inl rfl), Set.notMem_empty j⟩
  have hans : (sharedId ids i j clock user : Connection queue ι D H T U).Answers ids j
      (firstResponse (ids j)) := ⟨rfl, rfl, sharedId_issued i j clock user⟩
  obtain ⟨b, hb⟩ := h.reaches hrun j (firstResponse (ids j)) ⟨[], 0, 0⟩ code.emptyContext hinst hans
  exact hne (sharedId_handled hid hb)

/-- Whatever the clients of a connection do, and in whatever order they are created and uninstalled,
no response goes astray: exactly when no two of them have one service id. -/
theorem noCrossDelivery_iff [Inhabited Msg] (ids : ι → UInt32)
    (code : ConnectionCode ι D H T Msg Ctx U) (clock : Int64) (user : U) :
    NoCrossDelivery ids code (.fresh clock user : Connection queue ι D H T U) ↔
      Function.Injective ids := by
  constructor
  · intro h
    exact injective_of_noCrossDelivery h
  · intro hids
    exact noCrossDelivery_of_injective hids clock user

/-- Two clients of one service on one connection. -/
theorem second_client_gets_nothing :
    ¬ NoCrossDelivery (fun _ : Bool => 0)
      (⟨plainCode.codec, fun _ args => .ask args .ret, fun _ args => .ask args .ret, (),
        fun _ _ _ => .ok (), fun _ => .ok ()⟩ :
        ConnectionCode Bool Unit Unit Unit Unit Unit Unit)
      (.fresh 0 () : Connection (.sorted WaitResponseTimer.le) Bool Unit Unit Unit Unit) := by
  intro h
  have heq : false = true := injective_of_noCrossDelivery h rfl
  cases heq

end GayRpc
