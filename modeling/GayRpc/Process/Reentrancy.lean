import GayRpc.Process.Basic

/-!
# Using the library from within a handler

Where is code of the user called, and what does its thread hold there? `mStubMapGuard` is not held: the
clients leave their sections before they call a stub or a callback. But `handleRpcMsg` calls its handler
under `mMutex`, which a registration asks for exclusively.

So a thread is kept away by its own locks if and only if it has changed a table while one of the handlers of
this table was running further up (`conflicted_iff_changed_under_dispatch`). `Careful` (of `Lib.Locks`) is
shown for each operation, and a `Discipline` made of them. A nested dispatch asks for a table in shared mode
that its thread holds in shared mode; that is taken to be no conflict of a thread with itself here.

Whether a call offends is read off the calls it is made in, and not off the state: a call that changes a
table, with a dispatch of the same table among those further up. Any number of other calls may be in
between, of any kind, and on other tables.

What runs without being called is left out: the destructors of stubs and callbacks, which the clients erase
under `mStubMapGuard` in some places, and of handlers, which are removed under `mMutex`.
-/

namespace GayRpc

variable {queue : PriorityQueue WaitResponseTimer WaitResponseTimer.le}
  {μ ι ν D H T Msg Ctx U R : Type}

/-- The table whose handlers a call runs. -/
def LibraryCall.dispatches : LibraryCall μ ι ν D H T Msg Ctx → Option μ
  | .handleRpcMsg m _ _ _ => some m
  | .causeTimeout m _ => some m
  | _ => none

namespace ProcessCode

variable (code : ProcessCode μ ι ν D H T Msg Ctx U)

/-- The table whose entries a call changes. -/
def changes : LibraryCall μ ι ν D H T Msg Ctx → Option μ
  | .create i => some (code.clientManager i)
  | .uninstallClient i => some (code.clientManager i)
  | .install v => some (code.serviceManager v)
  | .uninstallService v => some (code.serviceManager v)
  | .removeAll m => some m
  | _ => none

/-- A handler of a table is running, and the call changes this table. -/
def ChangesUnderDispatch (c : LibraryCall μ ι ν D H T Msg Ctx)
    (outer : List (LibraryCall μ ι ν D H T Msg Ctx)) : Prop :=
  ∃ m, code.changes c = some m ∧ ∃ d ∈ outer, d.dispatches = some m

end ProcessCode

/-! ## What a thread holds where code of the user runs -/

/-- The handlers of a table run under its `mMutex`. -/
def LibraryCall.during (c : LibraryCall μ ι ν D H T Msg Ctx) (held : HeldLocks (Lock μ ι)) :
    HeldLocks (Lock μ ι) :=
  match c.dispatches with
  | some m => (.mMutex m, .shared) :: held
  | none => held

theorem LibraryCall.during_of_some {c : LibraryCall μ ι ν D H T Msg Ctx} {m : μ}
    (h : c.dispatches = some m) (held : HeldLocks (Lock μ ι)) :
    c.during held = (.mMutex m, .shared) :: held := by
  simp only [during, h]

theorem LibraryCall.during_of_none {c : LibraryCall μ ι ν D H T Msg Ctx}
    (h : c.dispatches = none) (held : HeldLocks (Lock μ ι)) : c.during held = held := by
  simp only [during, h]

/-- Nothing but tables is held, and each of them shared. -/
structure OnlyTables (held : HeldLocks (Lock μ ι)) : Prop where
  mutex : ∀ {l mode}, (l, mode) ∈ held → ∃ m, l = .mMutex m
  shared : ∀ {l mode}, (l, mode) ∈ held → mode = .shared

namespace OnlyTables

variable {held : HeldLocks (Lock μ ι)}

theorem nil : OnlyTables ([] : HeldLocks (Lock μ ι)) := by
  constructor <;> simp

theorem cons (h : OnlyTables held) (m : μ) : OnlyTables ((.mMutex m, .shared) :: held) where
  mutex hmem := by
    obtain heq | hmem := List.mem_cons.mp hmem
    · exact ⟨m, congrArg Prod.fst heq⟩
    · exact h.mutex hmem
  shared hmem := by
    obtain heq | hmem := List.mem_cons.mp hmem
    · exact congrArg Prod.snd heq
    · exact h.shared hmem

/-- The sections of the clients are open to every thread. -/
theorem guard_free (h : OnlyTables held) (i : ι) (mode : LockMode) :
    ¬SelfConflict held (.mStubMapGuard i) mode := by
  rintro ⟨m, hmem, -⟩
  obtain ⟨n, hn⟩ := h.mutex hmem
  cases hn

/-- A table may be looked into again. -/
theorem shared_free (h : OnlyTables held) (l : Lock μ ι) : ¬SelfConflict held l .shared := by
  rintro ⟨m, hmem, hexcl⟩
  obtain rfl := h.shared hmem
  exact hexcl

end OnlyTables

theorem onlyTables_during (outer : List (LibraryCall μ ι ν D H T Msg Ctx)) :
    OnlyTables (outer.foldr LibraryCall.during []) := by
  induction outer with
  | nil => exact .nil
  | cons c outer ih =>
      rw [List.foldr_cons]
      cases hc : c.dispatches with
      | none =>
          rw [c.during_of_none hc]
          exact ih
      | some m =>
          rw [c.during_of_some hc]
          exact ih.cons m

theorem mem_during_iff {outer : List (LibraryCall μ ι ν D H T Msg Ctx)} {m : μ} {mode : LockMode} :
    (.mMutex m, mode) ∈ outer.foldr LibraryCall.during ([] : HeldLocks (Lock μ ι)) ↔
      mode = .shared ∧ ∃ d ∈ outer, d.dispatches = some m := by
  induction outer with
  | nil => simp
  | cons c outer ih =>
      rw [List.foldr_cons]
      cases hc : c.dispatches with
      | none => simp [c.during_of_none hc, ih, hc]
      | some n =>
          rw [c.during_of_some hc, List.mem_cons, ih]
          simp only [Prod.mk.injEq, Lock.mMutex.injEq, List.mem_cons, exists_eq_or_imp, hc,
            Option.some.injEq]
          grind

/-- A table can be changed unless one of its handlers is running. -/
theorem selfConflict_mMutex_iff {outer : List (LibraryCall μ ι ν D H T Msg Ctx)} {m : μ} :
    SelfConflict (outer.foldr LibraryCall.during ([] : HeldLocks (Lock μ ι))) (.mMutex m)
      .exclusive ↔ ∃ d ∈ outer, d.dispatches = some m := by
  constructor
  · rintro ⟨mode, hmem, -⟩
    exact (mem_during_iff.mp hmem).2
  · intro h
    exact ⟨.shared, mem_during_iff.mpr ⟨rfl, h⟩, trivial⟩

/-! ## Code that does nothing with locks -/

open Prog

section lockless

variable {next : Bool → Args Msg Ctx → LibraryProg queue μ ι ν D H T Msg Ctx U Reply}

theorem lockless_runUserCode (p : UserProg μ ι ν D H T Msg Ctx U R) :
    (runUserCode p : LibraryProg queue μ ι ν D H T Msg Ctx U R).Lockless := .lift p

theorem lockless_runChain (hnext : ∀ first args, (next first args).Lockless) (first : Bool)
    (p : Prog U Empty (Args Msg Ctx ⊕ LibraryCall μ ι ν D H T Msg Ctx) (Reply ⊕ Except Exn Unit)
      Reply) : (runChain next first p).Lockless := by
  induction p generalizing first with
  | ret reply => exact .ret reply
  | halt => exact .halt
  | ask q k ih =>
      cases q with
      | inl args => exact (hnext first args).bind fun reply => ih (.inl reply) false
      | inr c => exact .ask fun result => ih (.inr result) first
  | act f k ih => exact .act fun s => ih s.user first
  | emit e k ih => exact e.elim
  | fork p k ihp ihk => exact .fork (ihp first) (ihk first)

theorem lockless_sendOut (outboundInterceptor : InterceptorChain μ ι ν D H T Msg Ctx U)
    (rpcMeta : RpcMeta) (message : Msg) (context : Ctx) :
    (sendOut outboundInterceptor rpcMeta message context :
      LibraryProg queue μ ι ν D H T Msg Ctx U (Except Exn Unit)).Lockless := by
  apply Lockless.bind
  · exact lockless_runChain (fun _ args => .ret _) true _
  · exact fun reply => .ret reply.thrown

end lockless

namespace ProcessCode

variable (code : ProcessCode μ ι ν D H T Msg Ctx U)

section lockless

theorem lockless_runTimeout (timeoutCallback : TimeoutCallback T) :
    (code.runTimeout timeoutCallback :
      LibraryProg queue μ ι ν D H T Msg Ctx U (Except Exn Unit)).Lockless := by
  unfold runTimeout
  cases timeoutCallback.callback with
  | none => exact .ret _
  | some callback => exact lockless_runUserCode _

theorem lockless_runCallbacks (callbacks : List (UInt64 × TimeoutCallback T)) :
    (code.runCallbacks callbacks :
      LibraryProg queue μ ι ν D H T Msg Ctx U (Except Exn Unit)).Lockless := by
  induction callbacks with
  | nil => exact .ret _
  | cons callback callbacks ih =>
      apply (code.lockless_runTimeout callback.2).bind
      intro result
      cases result with
      | ok _ => exact ih
      | error e => exact .ret _

theorem lockless_parseResponseWrapper (i : ι) (stub : ResponseStub D H) (rpcMeta : RpcMeta)
    (data : StringView) (context : Ctx) :
    (code.parseResponseWrapper i stub rpcMeta data context :
      LibraryProg queue μ ι ν D H T Msg Ctx U Reply).Lockless := by
  unfold parseResponseWrapper
  cases parseMessage code.codec "response" stub.type rpcMeta.encoding data with
  | error e => exact .ret _
  | ok response =>
      refine lockless_runChain (fun _ args => ?_) true _
      apply Lockless.bind
      · unfold runHandle
        cases stub.handle with
        | none => exact .ret _
        | some handle => exact lockless_runUserCode _
      · exact fun result => .ret _

theorem lockless_reply (v : ν) (replyObj : BaseReply) (answer : ReplyCall Msg Ctx) :
    (code.reply v replyObj answer :
      LibraryProg queue μ ι ν D H T Msg Ctx U (Except Exn Unit)).Lockless := by
  refine .act fun s => ?_
  split_ifs
  · exact .ret _
  · exact .ret _
  · cases answer with
    | reply response context => exact lockless_sendOut _ _ _ _
    | error errorCode reason context => exact lockless_sendOut _ _ _ _
  · exact .ret _

theorem lockless_continuation (v : ν) (rpcMeta : RpcMeta) (outcome : Outcome) :
    (code.continuation v rpcMeta outcome :
      LibraryProg queue μ ι ν D H T Msg Ctx U (Except Exn Unit)).Lockless := by
  unfold continuation
  split
  · exact (lockless_sendOut _ _ _ _).bind fun _ => .ret _
  · exact .ret _
  · exact .ret _

theorem lockless_reportOutcome (v : ν) (rpcMeta : RpcMeta) (outcome : Outcome) :
    (code.reportOutcome v rpcMeta outcome :
      LibraryProg queue μ ι ν D H T Msg Ctx U (Except Exn Unit)).Lockless := by
  unfold reportOutcome
  split
  · exact .ret _
  · exact lockless_sendOut _ _ _ _
  · split
    · exact .halt
    · exact lockless_sendOut _ _ _ _

theorem lockless_afterHandler (v : ν) (reply : Reply) :
    (code.afterHandler v reply :
      LibraryProg queue μ ι ν D H T Msg Ctx U (Except Exn Unit)).Lockless := by
  unfold afterHandler
  split
  · exact .ret _
  · exact code.lockless_reportOutcome v _ _
  · refine .act fun s => ?_
    split
    · exact code.lockless_reportOutcome v _ _
    · refine .act fun s' => ?_
      split
      · exact code.lockless_continuation v _ _
      · exact .ret _

theorem lockless_requestStub (v : ν) (rpcMeta : RpcMeta) (data : StringView) (context : Ctx) :
    (code.requestStub v rpcMeta data context :
      LibraryProg queue μ ι ν D H T Msg Ctx U (Except Exn Unit)).Lockless := by
  unfold requestStub
  split_ifs
  · exact .ret _
  · cases code.findHandler v rpcMeta with
    | error what => exact lockless_sendOut _ _ _ _
    | ok handler =>
        refine Lockless.bind ?_ fun reply => code.lockless_afterHandler v reply
        unfold methodStub
        cases parseMessage code.codec "request" handler.type rpcMeta.encoding data with
        | error e => exact .ret _
        | ok request =>
            refine lockless_runChain (fun first args => ?_) true _
            exact .act fun s => (lockless_runUserCode _).bind fun result => .ret _

theorem lockless_fulfil (promise : ℕ) (outcome : Outcome) :
    (code.fulfil promise outcome :
      LibraryProg queue μ ι ν D H T Msg Ctx U (Except Exn Unit)).Lockless := by
  refine .act fun s => ?_
  split_ifs
  · exact .ret _
  · split
    · exact code.lockless_continuation _ _ _
    · exact .ret _

end lockless

/-! ## The operations -/

section careful

variable {calm held : HeldLocks (Lock μ ι)}

theorem careful_underMutex [DecidableEq μ] {m : μ} (h : ¬SelfConflict held (.mMutex m) .exclusive)
    (f : RpcTypeHandleManager (TypeHandle ι ν) → RpcTypeHandleManager (TypeHandle ι ν))
    (found : RpcTypeHandleManager (TypeHandle ι ν) → R) :
    (underMutex m f found : LibraryProg queue μ ι ν D H T Msg Ctx U R).Careful calm held held :=
  .withLock h fun _ => rfl

variable [DecidableEq ι]

theorem careful_underGuard (h : OnlyTables held) (i : ι)
    (f : BaseClient queue D H T → BaseClient queue D H T) (found : BaseClient queue D H T → R) :
    (underGuard i f found : LibraryProg queue μ ι ν D H T Msg Ctx U R).Careful calm held held :=
  .withLock (h.guard_free i _) fun _ => rfl

theorem careful_call (h : OnlyTables held) (i : ι) (r : CallRequest D H T Msg) :
    (code.call i r : LibraryProg queue μ ι ν D H T Msg Ctx U _).Careful held held held := by
  intro s
  dsimp only
  cases r.timed with
  | some timed =>
      intro s'
      exact (careful_underGuard h i _ _).bind fun _ => lockless_sendOut _ _ _ _ held
  | none =>
      dsimp only
      split_ifs
      · exact (careful_underGuard h i _ _).bind fun _ => lockless_sendOut _ _ _ _ held
      · exact lockless_sendOut _ _ _ _ held

theorem careful_processRpcResponse (h : OnlyTables held) (i : ι) (rpcMeta : RpcMeta)
    (data : StringView) (context : Ctx) :
    (code.processRpcResponse i rpcMeta data context :
      LibraryProg queue μ ι ν D H T Msg Ctx U _).Careful held held held := by
  unfold processRpcResponse
  split_ifs
  · rfl
  · refine (careful_underGuard h i _ _).bind fun found => ?_
    cases found with
    | none => rfl
    | some timeoutHandler =>
        dsimp only
        split_ifs
        · exact code.lockless_runTimeout timeoutHandler held
        · rfl
  · refine (careful_underGuard h i _ _).bind fun found => ?_
    cases found with
    | none => rfl
    | some stub =>
        exact (code.lockless_parseResponseWrapper i stub rpcMeta data context held).bind fun _ => rfl

theorem careful_checkTimeout (h : OnlyTables held) (i : ι) :
    (code.checkTimeout i : LibraryProg queue μ ι ν D H T Msg Ctx U _).Careful held held held := by
  intro s
  exact (careful_underGuard h i _ _).bind fun callbacks => code.lockless_runCallbacks callbacks held

/-- What a handler may find its thread holding is what its caller held, and the table besides. -/
theorem careful_handleRpcMsg (h : OnlyTables held) (m : μ) (rpcMeta : RpcMeta) (data : StringView)
    (context : Ctx) :
    (code.handleRpcMsg m rpcMeta data context : LibraryProg queue μ ι ν D H T Msg Ctx U _).Careful
      ((.mMutex m, .shared) :: held) held held := by
  apply Careful.withLock (h.shared_free _)
  intro s
  dsimp only
  cases (s.managers m).handleRpcMsg rpcMeta with
  | error e => rfl
  | ok handler =>
      cases handler with
      | responseStub i => exact code.careful_processRpcResponse (h.cons m) i rpcMeta data context
      | requestStub v => exact code.lockless_requestStub v rpcMeta data context _

end careful

variable [DecidableEq ι] [DecidableEq μ]

/-- Whatever changes a table is one section under its `mMutex`. -/
theorem body_of_changes {c : LibraryCall μ ι ν D H T Msg Ctx} {m : μ} (hc : code.changes c = some m) :
    ∃ f found, (code.body c : LibraryProg queue μ ι ν D H T Msg Ctx U _) = underMutex m f found := by
  cases c <;> cases hc
  all_goals
    simp only [body, create, uninstallClient, install, uninstallService, removeAll]
    exact ⟨_, _, rfl⟩

theorem careful_body_of_changes {c : LibraryCall μ ι ν D H T Msg Ctx} {m : μ}
    {calm held : HeldLocks (Lock μ ι)} (hc : code.changes c = some m)
    (h : ¬SelfConflict held (.mMutex m) .exclusive) :
    (code.body c : LibraryProg queue μ ι ν D H T Msg Ctx U _).Careful calm held held := by
  obtain ⟨f, found, hbody⟩ := code.body_of_changes hc
  rw [hbody]
  exact careful_underMutex h f found

theorem blocks_body_of_changes {c : LibraryCall μ ι ν D H T Msg Ctx} {m : μ}
    {held : HeldLocks (Lock μ ι)} (hc : code.changes c = some m)
    (h : SelfConflict held (.mMutex m) .exclusive) :
    (code.body c : LibraryProg queue μ ι ν D H T Msg Ctx U _).Blocks held := by
  obtain ⟨f, found, hbody⟩ := code.body_of_changes hc
  rw [hbody]
  exact ⟨_, _, _, rfl, h⟩

/-- What changes no table goes about its locks carefully, wherever it is called. -/
theorem careful_body {c : LibraryCall μ ι ν D H T Msg Ctx} {held : HeldLocks (Lock μ ι)}
    (hc : code.changes c = none) (h : OnlyTables held) :
    (code.body c : LibraryProg queue μ ι ν D H T Msg Ctx U _).Careful (c.during held) held held := by
  cases c with
  | call i r => exact code.careful_call h i r
  | reply v replyObj answer => exact code.lockless_reply v replyObj answer held
  | checkTimeout i => exact code.careful_checkTimeout h i
  | handleRpcMsg m rpcMeta data context => exact code.careful_handleRpcMsg h m rpcMeta data context
  | causeTimeout m seq_id => exact (code.careful_handleRpcMsg h m _ _ _).bind fun _ => rfl
  | fulfil promise outcome => exact code.lockless_fulfil promise outcome held
  | create i => cases hc
  | uninstallClient i => cases hc
  | install v => cases hc
  | uninstallService v => cases hc
  | removeAll m => cases hc

/-- How the operations of the library go about their locks. -/
def discipline : Discipline
    (code.body : _ → LibraryProg queue μ ι ν D H T Msg Ctx U (Except Exn Unit)) where
  during := LibraryCall.during
  Offends := code.ChangesUnderDispatch
  careful := by
    intro c outer hoff
    cases hm : code.changes c with
    | none => exact code.careful_body hm (onlyTables_during outer)
    | some m =>
        apply code.careful_body_of_changes hm
        intro hconf
        exact hoff ⟨m, hm, selfConflict_mMutex_iff.mp hconf⟩
  blocks := by
    rintro c outer ⟨m, hm, hd⟩
    exact code.blocks_body_of_changes hm (selfConflict_mMutex_iff.mpr hd)

end ProcessCode

variable [DecidableEq ι] [DecidableEq μ]

/-- A thread that uses the library in any way, from within handlers at any depth and beside any other
threads, is kept away by its own locks if and only if it has tried to change a table while it was
running a handler of this table. -/
theorem conflicted_iff_changed_under_dispatch (code : ProcessCode μ ι ν D H T Msg Ctx U)
    {s : Process queue μ ι ν D H T U} {p : UserProg μ ι ν D H T Msg Ctx U (Except Exn Unit)}
    {es : List (List (LibraryCall μ ι ν D H T Msg Ctx))}
    {t : ProcessThread queue μ ι ν D H T Msg Ctx U}
    (h : (Thread.start s (runUserCode p)).Run code.body es t) :
    t.Conflicted ↔ ∃ c outer, c :: outer ∈ es ∧ code.ChangesUnderDispatch c outer :=
  h.conflicted_iff code.discipline (lockless_runUserCode p [])

/-! A process with one service, whose method does one thing. -/

abbrev PlainCall : Type := LibraryCall Unit Unit Unit Unit Unit Unit Unit Unit

/-- One table with one service, whose method calls `c`. There are no interceptors. -/
def serviceCalling (c : PlainCall) :
    ProcessCode Unit Unit Unit Unit Unit Unit Unit Unit Unit where
  codec :=
    { parseFromArray := fun _ _ _ => some ()
      jsonStringToMessage := fun _ _ => .ok ()
      serializeAsString := fun _ => []
      typeName := fun _ => "" }
  emptyContext := ()
  noMessage := ()
  clientManager _ := ()
  clientServiceID _ := 0
  clientInbound _ args := .ask (.inl args) fun reply => reply.elim .ret fun _ => .halt
  clientOutbound _ args := .ask (.inl args) fun reply => reply.elim .ret fun _ => .halt
  serviceManager _ := ()
  serviceID _ := 0
  serviceTypeName _ := ""
  serviceInbound _ args := .ask (.inl args) fun reply => reply.elim .ret fun _ => .halt
  serviceOutbound _ args := .ask (.inl args) fun reply => reply.elim .ret fun _ => .halt
  serviceHandlerMapById _ := Finmap.singleton 0 { type := (), run := fun _ _ _ => .ask c .ret }
  serviceHandlerMapByStr _ := ∅
  handle _ _ _ := .ret (.ok ())
  timeout _ := .ret (.ok ())

def requestArrives : PlainCall := .handleRpcMsg () {} ⟨[], 0, 0⟩ ()

def installAndServe : UserProg Unit Unit Unit Unit Unit Unit Unit Unit Unit (Except Exn Unit) :=
  .ask (.install ()) fun _ => .ask requestArrives .ret

abbrev PlainProcess : Type :=
  Process (.sorted WaitResponseTimer.le) Unit Unit Unit Unit Unit Unit Unit

def PlainProcess.fresh : PlainProcess := { clock := 0, server := { promises := { user := () } } }

/-- The method comes to its call while the table is held. -/
theorem serviceCalling_run (c : PlainCall) : ∃ s k stack,
    (Thread.start PlainProcess.fresh (runUserCode installAndServe)).Run (serviceCalling c).body
      [[.install ()], [requestArrives], [c, requestArrives]]
      ⟨s, [(.mMutex (), .shared)], (serviceCalling c).body c, (c, k) :: stack⟩ := by
  have hfree : ∀ l mode, ¬SelfConflict ([] : HeldLocks (Lock Unit Unit)) l mode := by
    simp [SelfConflict]
  have h1 : (Thread.start PlainProcess.fresh (runUserCode installAndServe)).Run
      (serviceCalling c).body [[.install ()]] ⟨_, [], (serviceCalling c).body (.install ()), [_]⟩ :=
    Thread.Run.refl.tail .call
  have h2 := h1.tail (.acquire (hfree _ _))
  have h3 := h2.tail (.act rfl)
  have h4 := h3.tail .release
  have h5 := h4.tail .return
  have h6 := h5.tail .call
  have h7 := h6.tail (.acquire (hfree _ _))
  have h8 := h7.tail (.act rfl)
  have h9 := h8.tail (.act rfl)
  exact ⟨_, _, _, h9.tail .call⟩

/-- A method that replies runs through, under the table though it is. -/
theorem conflicted_iff_changed_under_dispatch_example : ∃ t,
    (Thread.start PlainProcess.fresh (runUserCode installAndServe)).Run
      (serviceCalling (.reply () ⟨0, {}, true⟩ (.reply () ()))).body
      [[.install ()], [requestArrives], [.reply () ⟨0, {}, true⟩ (.reply () ()), requestArrives]] t ∧
    ¬t.Conflicted := by
  obtain ⟨s, k, stack, hrun⟩ := serviceCalling_run (.reply () ⟨0, {}, true⟩ (.reply () ()))
  refine ⟨_, hrun, ?_⟩
  rw [conflicted_iff_changed_under_dispatch _ hrun]
  rintro ⟨c, outer, hmem, m, hm, d, hd, -⟩
  simp only [List.mem_cons, List.cons.injEq, List.not_mem_nil, or_false] at hmem
  obtain ⟨-, rfl⟩ | ⟨-, rfl⟩ | ⟨rfl, -⟩ := hmem
  · exact absurd hd List.not_mem_nil
  · exact absurd hd List.not_mem_nil
  · cases hm

/-- A method that uninstalls its own service asks for the table that its thread holds. -/
theorem uninstall_within_method_conflicts : ∃ t,
    (Thread.start PlainProcess.fresh (runUserCode installAndServe)).Run
      (serviceCalling (.uninstallService ())).body
      [[.install ()], [requestArrives], [.uninstallService (), requestArrives]] t ∧
    t.Conflicted := by
  obtain ⟨s, k, stack, hrun⟩ := serviceCalling_run (.uninstallService ())
  exact ⟨_, hrun, .mMutex (), .exclusive, _, rfl, .shared, List.mem_singleton_self _, trivial⟩

end GayRpc
