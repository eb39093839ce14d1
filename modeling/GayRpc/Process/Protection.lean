import GayRpc.Lib.Machine
import GayRpc.Process.Reentrancy

/-!
# What the locks protect

`mMutex` protects the handlers of a table, `mStubMapGuard` the pending calls of a client, without
`mSequenceID`, which is atomic. The flags of the replies and the promises look after themselves.

For each operation it is shown that it touches what a lock protects only while it holds the lock. There are
few kinds of sections: those on a client or on a table under the lock (`covers_onClient`,
`covers_onManager`), and those on what no lock protects (`ignores_rest`, `ignores_user`,
`ignores_allocate`). Code of the user is a question, and holds what its callers hold.

Beside that it is noted which locks each call asks for (`Requests`): a call that changes a table, or looks
into one, asks for that table at once; a client asks for its guard when nothing but tables is held. That is
all a statement about deadlocks needs to know of the code.
-/

namespace GayRpc

variable {queue : PriorityQueue WaitResponseTimer WaitResponseTimer.le}
  {μ ι ν D H T Msg Ctx U R : Type}

open Prog

/-- The client with the counter of another one. -/
def BaseClient.withCounterOf (c other : BaseClient queue D H T) : BaseClient queue D H T :=
  { c with mSequenceID := other.mSequenceID }

namespace Process

variable (s : Process queue μ ι ν D H T U)

def putManager [DecidableEq μ] (m : μ) (manager : RpcTypeHandleManager (TypeHandle ι ν)) :
    Process queue μ ι ν D H T U :=
  { s with managers := Function.update s.managers m manager }

/-- The pending calls of a client; its counter stays what it is. -/
def putPending [DecidableEq ι] (i : ι) (c : BaseClient queue D H T) : Process queue μ ι ν D H T U :=
  { s with clients := Function.update s.clients i (c.withCounterOf (s.clients i)) }

/-- What is pending at one client, put beside a section on another one, or the counter changed. -/
theorem onClient_putPending [DecidableEq ι] {i j : ι} {f : BaseClient queue D H T → BaseClient queue D H T}
    (hf : j = i → ∀ c other : BaseClient queue D H T,
      f (c.withCounterOf other) = c.withCounterOf (f other))
    (c : BaseClient queue D H T) :
    onClient i f (s.putPending j c) = (onClient i f s).map fun s' => s'.putPending j c := by
  have hclients : Function.update (s.putPending j c).clients i (f ((s.putPending j c).clients i)) =
      Function.update (Function.update s.clients i (f (s.clients i))) j
        (c.withCounterOf (Function.update s.clients i (f (s.clients i)) j)) := by
    funext k
    simp only [putPending, Function.update_apply]
    by_cases hj : j = i
    · subst hj
      by_cases hk : k = j
      · simp only [hk, if_true]
        exact hf rfl c (s.clients j)
      · simp only [hk, if_false]
    · by_cases hk : k = i
      · subst hk
        simp only [Ne.symm hj, if_true, if_false]
      · simp only [hk, hj, if_false]
  exact congrArg (fun clients => some { s with clients }) hclients

theorem onManager_putManager [DecidableEq μ] {m n : μ}
    {f : RpcTypeHandleManager (TypeHandle ι ν) → RpcTypeHandleManager (TypeHandle ι ν)} (hnm : n ≠ m)
    (x : RpcTypeHandleManager (TypeHandle ι ν)) :
    onManager m f (s.putManager n x) = (onManager m f s).map fun s' => s'.putManager n x := by
  have hmanagers : Function.update (Function.update s.managers n x) m (f (Function.update s.managers n x m)) =
      Function.update (Function.update s.managers m (f (s.managers m))) n x := by
    rw [Function.update_of_ne hnm.symm, Function.update_comm hnm]
  exact congrArg (fun managers => some { s with managers }) hmanagers

/-- What the locks protect. -/
def protection [DecidableEq ι] [DecidableEq μ] : Protection (Process queue μ ι ν D H T U) (Lock μ ι) where
  Part
    | .mMutex _ => RpcTypeHandleManager (TypeHandle ι ν)
    | .mStubMapGuard _ => BaseClient queue D H T
  part
    | .mMutex m => fun s => s.managers m
    -- the counter `mSequenceID` is atomic and not among what the guard protects
    | .mStubMapGuard i => fun s => (s.clients i).withCounterOf {}
  put
    | .mMutex m => fun manager s => s.putManager m manager
    | .mStubMapGuard i => fun c s => s.putPending i c

end Process

variable [DecidableEq ι] [DecidableEq μ]

/-- A section on what no lock protects. -/
theorem ignores_rest {α : Type} {f : Process queue μ ι ν D H T U → Option (Process queue μ ι ν D H T U)}
    {k : Process queue μ ι ν D H T U → α}
    (hf : ∀ (s : Process queue μ ι ν D H T U) managers clients, f { s with managers, clients } =
      (f s).map fun s' => { s' with managers, clients })
    (hk : ∀ (s : Process queue μ ι ν D H T U) managers clients, k { s with managers, clients } = k s)
    (lock : Lock μ ι) : Process.protection.Ignores lock f k := by
  have hmap (s : Process queue μ ι ν D H T U) :
      f s = (f s).map fun s' => { s' with managers := s.managers, clients := s.clients } :=
    hf s s.managers s.clients
  -- `f` is blind to both tables, so it leaves them as they are
  have hkept {s s' : Process queue μ ι ν D H T U} (h : f s = some s') :
      s'.managers = s.managers ∧ s'.clients = s.clients := by
    have hs' := hmap s
    rw [h, Option.map_some] at hs'
    rw [Option.some.inj hs']
    exact ⟨rfl, rfl⟩
  have hput (s : Process queue μ ι ν D H T U) (managers clients)
      {g : Process queue μ ι ν D H T U → Process queue μ ι ν D H T U}
      (hg : ∀ s', s'.managers = s.managers → s'.clients = s.clients → g s' = { s' with managers, clients }) :
      f { s with managers, clients } = (f s).map g := by
    rw [hf]
    cases hs : f s with
    | none => rfl
    | some s' => exact congrArg some (hg s' (hkept hs).1 (hkept hs).2).symm
  cases lock with
  | mMutex m =>
      refine ⟨fun h => congrFun (hkept h).1 m, fun s x => hput s _ s.clients fun s' hm hc => ?_,
        fun s x => hk s _ s.clients⟩
      rw [← hm, ← hc]
      rfl
  | mStubMapGuard i =>
      refine ⟨fun h => ?_, fun s x => hput s s.managers _ fun s' hm hc => ?_, fun s x => hk s s.managers _⟩
      · exact congrArg (fun clients => (clients i).withCounterOf {}) (hkept h).2
      · rw [← hm, ← hc]
        rfl

/-- A section of the user. -/
theorem ignores_user {α : Type} (f : U → Option U) (k : U → α) (lock : Lock μ ι) :
    Process.protection.Ignores lock
      (fun s : Process queue μ ι ν D H T U => (f s.user).map s.setUser) fun s => k s.user := by
  refine ignores_rest (fun s managers clients => ?_) (fun s _ _ => rfl) lock
  rw [Option.map_map]
  rfl

/-- `mSequenceID++` is nothing that a lock is needed for. -/
theorem ignores_allocate {α : Type} {i : ι} {k : Process queue μ ι ν D H T U → α}
    (hk : ∀ s s', (s.clients i).mSequenceID = (s'.clients i).mSequenceID → k s = k s') (lock : Lock μ ι) :
    Process.protection.Ignores lock (Process.onClient i BaseClient.allocate) k := by
  cases lock with
  | mMutex m =>
      refine ⟨fun h => ?_, fun s x => rfl, fun s x => hk _ s rfl⟩
      cases h
      rfl
  | mStubMapGuard j =>
      refine ⟨fun {s s'} h => ?_, fun s => s.onClient_putPending fun _ _ _ => rfl, fun s c => hk _ s ?_⟩
      · cases h
        show (Function.update s.clients i _ j).withCounterOf {} = (s.clients j).withCounterOf {}
        rw [Function.update_apply]
        split_ifs with hji
        · -- drawing an id moves the counter, which is not among what the lock protects
          rw [hji]
          rfl
        · rfl
      · show (Function.update s.clients j (c.withCounterOf (s.clients j)) i).mSequenceID = _
        rw [Function.update_apply]
        split_ifs with hij
        · rw [hij]
          rfl
        · rfl

/-- A section on one client under its lock. -/
theorem covers_onClient {held : HeldLocks (Lock μ ι)} (i : ι)
    (f : BaseClient queue D H T → BaseClient queue D H T) (found : BaseClient queue D H T → R) :
    Process.protection.Covers ((.mStubMapGuard i, .exclusive) :: held) (Process.onClient i f)
      fun s : Process queue μ ι ν D H T U =>
        (.ret (found (s.clients i)) : LibraryProg queue μ ι ν D H T Msg Ctx U R) := by
  apply Protection.Covers.of_exclusive
  intro lock hlock
  cases lock with
  | mMutex m =>
      refine ⟨fun h => ?_, fun s x => rfl, fun s x => rfl⟩
      cases h
      rfl
  | mStubMapGuard j =>
      have hji : j ≠ i := fun h => hlock (congrArg _ h)
      refine ⟨fun {s s'} h => ?_, fun s => s.onClient_putPending fun h => absurd h hji, fun s c => ?_⟩
      · cases h
        show (Function.update s.clients i _ j).withCounterOf {} = _
        rw [Function.update_of_ne hji]
        rfl
      · show Prog.ret (found (Function.update s.clients j _ i)) = _
        rw [Function.update_of_ne hji.symm]

/-- A section on one table under its lock. -/
theorem covers_onManager {held : HeldLocks (Lock μ ι)} (m : μ)
    (f : RpcTypeHandleManager (TypeHandle ι ν) → RpcTypeHandleManager (TypeHandle ι ν))
    (found : RpcTypeHandleManager (TypeHandle ι ν) → R) :
    Process.protection.Covers ((.mMutex m, .exclusive) :: held) (Process.onManager m f)
      fun s : Process queue μ ι ν D H T U =>
        (.ret (found (s.managers m)) : LibraryProg queue μ ι ν D H T Msg Ctx U R) := by
  apply Protection.Covers.of_exclusive
  intro lock hlock
  cases lock with
  | mStubMapGuard i =>
      refine ⟨fun h => ?_, fun s x => rfl, fun s x => rfl⟩
      cases h
      rfl
  | mMutex n =>
      have hnm : n ≠ m := fun h => hlock (congrArg _ h)
      refine ⟨fun {s s'} h => ?_, fun s => s.onManager_putManager hnm, fun s x => ?_⟩
      · cases h
        exact Function.update_of_ne hnm _ _
      · exact congrArg (fun manager => Prog.ret (found manager)) (Function.update_of_ne hnm.symm _ _)

/-! ## Code that needs no lock -/

section open_code

variable {next : Bool → Args Msg Ctx → LibraryProg queue μ ι ν D H T Msg Ctx U Reply}

theorem open_runUserCode (p : UserProg μ ι ν D H T Msg Ctx U R) :
    (runUserCode p : LibraryProg queue μ ι ν D H T Msg Ctx U R).Open Process.protection := by
  unfold runUserCode
  induction p with
  | ret r => exact .ret r
  | halt => exact .halt
  | ask q k ih => exact .ask ih
  | act f k ih =>
      exact .act (ignores_user f fun u => (k u).lift Process.user Process.setUser) fun s => ih s.user
  | emit e k ih => exact e.elim
  | fork p k ihp ihk => exact .fork ihp ihk

theorem open_runChain (hnext : ∀ first args, (next first args).Open Process.protection) (first : Bool)
    (p : Prog U Empty (Args Msg Ctx ⊕ LibraryCall μ ι ν D H T Msg Ctx) (Reply ⊕ Except Exn Unit)
      Reply) : (runChain next first p).Open Process.protection := by
  induction p generalizing first with
  | ret reply => exact .ret reply
  | halt => exact .halt
  | ask q k ih =>
      cases q with
      | inl args => exact (hnext first args).bind fun reply => ih (.inl reply) false
      | inr c => exact .ask fun result => ih (.inr result) first
  | act f k ih =>
      exact .act (ignores_user f fun u => runChain next first (k u)) fun s => ih s.user first
  | emit e k ih => exact e.elim
  | fork p k ihp ihk => exact .fork (ihp first) (ihk first)

theorem open_sendOut (outboundInterceptor : InterceptorChain μ ι ν D H T Msg Ctx U)
    (rpcMeta : RpcMeta) (message : Msg) (context : Ctx) :
    (sendOut outboundInterceptor rpcMeta message context :
      LibraryProg queue μ ι ν D H T Msg Ctx U (Except Exn Unit)).Open Process.protection := by
  apply Open.bind
  · exact open_runChain (fun _ args => .ret _) true _
  · exact fun reply => .ret reply.thrown

end open_code

namespace ProcessCode

variable (code : ProcessCode μ ι ν D H T Msg Ctx U)

section open_code

theorem open_runTimeout (timeoutCallback : TimeoutCallback T) :
    (code.runTimeout timeoutCallback :
      LibraryProg queue μ ι ν D H T Msg Ctx U (Except Exn Unit)).Open Process.protection := by
  unfold runTimeout
  cases timeoutCallback.callback with
  | none => exact .ret _
  | some callback => exact open_runUserCode _

theorem open_runCallbacks (callbacks : List (UInt64 × TimeoutCallback T)) :
    (code.runCallbacks callbacks :
      LibraryProg queue μ ι ν D H T Msg Ctx U (Except Exn Unit)).Open Process.protection := by
  induction callbacks with
  | nil => exact .ret _
  | cons callback callbacks ih =>
      apply (code.open_runTimeout callback.2).bind
      intro result
      cases result with
      | ok _ => exact ih
      | error e => exact .ret _

theorem open_parseResponseWrapper (i : ι) (stub : ResponseStub D H) (rpcMeta : RpcMeta)
    (data : StringView) (context : Ctx) :
    (code.parseResponseWrapper i stub rpcMeta data context :
      LibraryProg queue μ ι ν D H T Msg Ctx U Reply).Open Process.protection := by
  unfold parseResponseWrapper
  cases parseMessage code.codec "response" stub.type rpcMeta.encoding data with
  | error e => exact .ret _
  | ok response =>
      refine open_runChain (fun _ args => ?_) true _
      apply Open.bind
      · unfold runHandle
        cases stub.handle with
        | none => exact .ret _
        | some handle => exact open_runUserCode _
      · exact fun result => .ret _

theorem open_reply (v : ν) (replyObj : BaseReply) (answer : ReplyCall Msg Ctx) :
    (code.reply v replyObj answer :
      LibraryProg queue μ ι ν D H T Msg Ctx U (Except Exn Unit)).Open Process.protection := by
  refine .act (ignores_rest (fun s _ _ => rfl) fun s _ _ => rfl) fun s => ?_
  split_ifs
  · exact .ret _
  · exact .ret _
  · cases answer with
    | reply response context => exact open_sendOut _ _ _ _
    | error errorCode reason context => exact open_sendOut _ _ _ _
  · exact .ret _

theorem open_continuation (v : ν) (rpcMeta : RpcMeta) (outcome : Outcome) :
    (code.continuation v rpcMeta outcome :
      LibraryProg queue μ ι ν D H T Msg Ctx U (Except Exn Unit)).Open Process.protection := by
  unfold continuation
  split
  · exact (open_sendOut _ _ _ _).bind fun _ => .ret _
  · exact .ret _
  · exact .ret _

theorem open_reportOutcome (v : ν) (rpcMeta : RpcMeta) (outcome : Outcome) :
    (code.reportOutcome v rpcMeta outcome :
      LibraryProg queue μ ι ν D H T Msg Ctx U (Except Exn Unit)).Open Process.protection := by
  unfold reportOutcome
  split
  · exact .ret _
  · exact open_sendOut _ _ _ _
  · split
    · exact .halt
    · exact open_sendOut _ _ _ _

theorem open_afterHandler (v : ν) (reply : Reply) :
    (code.afterHandler v reply :
      LibraryProg queue μ ι ν D H T Msg Ctx U (Except Exn Unit)).Open Process.protection := by
  unfold afterHandler
  split
  · exact .ret _
  · exact code.open_reportOutcome v _ _
  · refine .act (ignores_rest (fun s _ _ => rfl) fun s _ _ => rfl) fun s => ?_
    split
    · exact code.open_reportOutcome v _ _
    · refine .act (ignores_rest (fun s _ _ => ?_) fun s _ _ => rfl) fun s' => ?_
      · unfold Process.thenValue
        dsimp only
        split_ifs <;> rfl
      · split
        · exact code.open_continuation v _ _
        · exact .ret _

theorem open_requestStub (v : ν) (rpcMeta : RpcMeta) (data : StringView) (context : Ctx) :
    (code.requestStub v rpcMeta data context :
      LibraryProg queue μ ι ν D H T Msg Ctx U (Except Exn Unit)).Open Process.protection := by
  unfold requestStub
  split_ifs
  · exact .ret _
  · cases code.findHandler v rpcMeta with
    | error what => exact open_sendOut _ _ _ _
    | ok handler =>
        refine Open.bind ?_ fun reply => code.open_afterHandler v reply
        unfold methodStub
        cases parseMessage code.codec "request" handler.type rpcMeta.encoding data with
        | error e => exact .ret _
        | ok request =>
            refine open_runChain (fun first args => ?_) true _
            refine .act (ignores_rest (fun s _ _ => rfl) fun s _ _ => rfl) fun s => ?_
            exact (open_runUserCode _).bind fun result => .ret _

theorem open_fulfil (promise : ℕ) (outcome : Outcome) :
    (code.fulfil promise outcome :
      LibraryProg queue μ ι ν D H T Msg Ctx U (Except Exn Unit)).Open Process.protection := by
  refine .act (ignores_rest (fun s _ _ => ?_) fun s _ _ => rfl) fun s => ?_
  · unfold Process.fulfil
    dsimp only
    split_ifs <;> rfl
  · split_ifs
    · exact .ret _
    · split
      · exact code.open_continuation _ _ _
      · exact .ret _

end open_code

/-! ## The operations -/

section obeys

variable {Requests : HeldLocks (Lock μ ι) → Lock μ ι → LockMode → Prop}
  {base calm held : HeldLocks (Lock μ ι)}

theorem obeys_underMutex {m : μ} (h : Requests held (.mMutex m) .exclusive) (hbase : base <:+ held)
    (f : RpcTypeHandleManager (TypeHandle ι ν) → RpcTypeHandleManager (TypeHandle ι ν))
    (found : RpcTypeHandleManager (TypeHandle ι ν) → R) :
    (underMutex m f found : LibraryProg queue μ ι ν D H T Msg Ctx U R).Obeys Process.protection
      Requests base calm held held :=
  .withLock h hbase ⟨covers_onManager m f found, fun _ => rfl⟩

theorem obeys_underGuard {i : ι} (h : Requests held (.mStubMapGuard i) .exclusive) (hbase : base <:+ held)
    (f : BaseClient queue D H T → BaseClient queue D H T) (found : BaseClient queue D H T → R) :
    (underGuard i f found : LibraryProg queue μ ι ν D H T Msg Ctx U R).Obeys Process.protection
      Requests base calm held held :=
  .withLock h hbase ⟨covers_onClient i f found, fun _ => rfl⟩

theorem obeys_call {i : ι} (h : Requests held (.mStubMapGuard i) .exclusive) (hbase : base <:+ held)
    (r : CallRequest D H T Msg) :
    (code.call i r : LibraryProg queue μ ι ν D H T Msg Ctx U _).Obeys Process.protection
      Requests base held held held := by
  refine ⟨.of_ignores (ignores_allocate fun s s' heq => ?_), fun s => ?_⟩
  · simp only [BaseClient.nextID, heq]
  · dsimp only
    cases r.timed with
    | some timed =>
        refine ⟨.of_ignores (ignores_rest (fun s _ _ => rfl) fun s _ _ => rfl), fun s' => ?_⟩
        exact (obeys_underGuard h hbase _ _).bind fun _ => open_sendOut _ _ _ _ _ _ held
    | none =>
        dsimp only
        split_ifs
        · exact (obeys_underGuard h hbase _ _).bind fun _ => open_sendOut _ _ _ _ _ _ held
        · exact open_sendOut _ _ _ _ _ _ held

theorem obeys_processRpcResponse {i : ι} (h : Requests held (.mStubMapGuard i) .exclusive)
    (hbase : base <:+ held) (rpcMeta : RpcMeta) (data : StringView) (context : Ctx) :
    (code.processRpcResponse i rpcMeta data context :
      LibraryProg queue μ ι ν D H T Msg Ctx U _).Obeys Process.protection Requests base held held held := by
  unfold processRpcResponse
  split_ifs
  · rfl
  · refine (obeys_underGuard h hbase _ _).bind fun found => ?_
    cases found with
    | none => rfl
    | some timeoutHandler =>
        dsimp only
        split_ifs
        · exact code.open_runTimeout timeoutHandler _ _ held
        · rfl
  · refine (obeys_underGuard h hbase _ _).bind fun found => ?_
    cases found with
    | none => rfl
    | some stub =>
        exact (code.open_parseResponseWrapper i stub rpcMeta data context _ _ held).bind fun _ => rfl

theorem obeys_checkTimeout {i : ι} (h : Requests held (.mStubMapGuard i) .exclusive)
    (hbase : base <:+ held) :
    (code.checkTimeout i : LibraryProg queue μ ι ν D H T Msg Ctx U _).Obeys Process.protection
      Requests base held held held := by
  refine ⟨.of_ignores (ignores_rest (fun s _ _ => rfl) fun s _ _ => rfl), fun s => ?_⟩
  exact (obeys_underGuard h hbase _ _).bind fun callbacks => code.open_runCallbacks callbacks _ _ held

theorem obeys_handleRpcMsg {m : μ} (h : Requests held (.mMutex m) .shared)
    (hguard : ∀ i, Requests ((.mMutex m, .shared) :: held) (.mStubMapGuard i) .exclusive)
    (hbase : base <:+ held) (rpcMeta : RpcMeta) (data : StringView) (context : Ctx) :
    (code.handleRpcMsg m rpcMeta data context : LibraryProg queue μ ι ν D H T Msg Ctx U _).Obeys
      Process.protection Requests base ((.mMutex m, .shared) :: held) held held := by
  have hbase' : base <:+ (.mMutex m, .shared) :: held := hbase.trans (List.suffix_cons _ _)
  apply Obeys.withLock h hbase
  refine ⟨.of_look fun lock hlock => ?_, fun s => ?_⟩
  · refine ⟨fun hs' => congrArg _ (Option.some.inj hs').symm, fun s x => rfl, fun s x => ?_⟩
    have hm : (Process.protection.put lock x s).managers m = s.managers m := by
      cases lock with
      | mStubMapGuard i => rfl
      | mMutex n => exact Function.update_of_ne (fun h => hlock (congrArg _ h.symm)) _ _
    simp only [hm]
  · dsimp only
    cases (s.managers m).handleRpcMsg rpcMeta with
    | error e => rfl
    | ok handler =>
        cases handler with
        | responseStub i => exact code.obeys_processRpcResponse (hguard i) hbase' rpcMeta data context
        | requestStub v => exact code.open_requestStub v rpcMeta data context _ _ _

end obeys

/-- What a call asks for: the table that it changes or dispatches, at once; the section of a client where no
more than tables is held, and these shared. -/
structure Requests (c : LibraryCall μ ι ν D H T Msg Ctx) (outer : List (LibraryCall μ ι ν D H T Msg Ctx))
    (held : HeldLocks (Lock μ ι)) (lock : Lock μ ι) (mode : LockMode) : Prop where
  onlyTables : OnlyTables held
  outermost : ∀ {m}, lock = .mMutex m → held = outer.foldr LibraryCall.during []
  changes : ∀ {m}, lock = .mMutex m → mode = .exclusive → code.changes c = some m
  dispatches : ∀ {m}, lock = .mMutex m → mode = .shared → c.dispatches = some m
  guard : ∀ {i}, lock = .mStubMapGuard i → mode = .exclusive

section requests

omit [DecidableEq ι] [DecidableEq μ]

variable {c : LibraryCall μ ι ν D H T Msg Ctx} {outer : List (LibraryCall μ ι ν D H T Msg Ctx)} {m : μ}

theorem Requests.of_changes (hc : code.changes c = some m) :
    code.Requests c outer (outer.foldr LibraryCall.during []) (.mMutex m) .exclusive where
  onlyTables := onlyTables_during outer
  outermost _ := rfl
  changes hlock _ := by
    cases hlock
    exact hc
  dispatches _ hmode := by cases hmode
  guard hlock := by cases hlock

theorem Requests.of_dispatches (hc : c.dispatches = some m) :
    code.Requests c outer (outer.foldr LibraryCall.during []) (.mMutex m) .shared where
  onlyTables := onlyTables_during outer
  outermost _ := rfl
  changes _ hmode := by cases hmode
  dispatches hlock _ := by
    cases hlock
    exact hc
  guard hlock := by cases hlock

theorem Requests.of_guard {held : HeldLocks (Lock μ ι)} (hheld : OnlyTables held) (i : ι) :
    code.Requests c outer held (.mStubMapGuard i) .exclusive where
  onlyTables := hheld
  outermost hlock := by cases hlock
  changes hlock := by cases hlock
  dispatches hlock := by cases hlock
  guard _ := rfl

end requests

/-- The library keeps to what its locks are for. -/
def regime : Regime (code.body : _ → LibraryProg queue μ ι ν D H T Msg Ctx U (Except Exn Unit)) where
  protection := Process.protection
  during := LibraryCall.during
  Requests := code.Requests
  suffix_during c held := by
    cases hc : c.dispatches with
    | none =>
        rw [c.during_of_none hc]
    | some m =>
        rw [c.during_of_some hc]
        exact List.suffix_cons _ held
  obeys c outer := by
    have htables : OnlyTables (outer.foldr LibraryCall.during []) := onlyTables_during outer
    cases hm : code.changes c with
    | some m =>
        obtain ⟨f, found, hbody⟩ := code.body_of_changes hm
        rw [hbody]
        apply obeys_underMutex _ (List.suffix_refl _)
        exact .of_changes code hm
    | none =>
        have hbase := List.suffix_refl (outer.foldr LibraryCall.during ([] : HeldLocks (Lock μ ι)))
        cases c with
        | call i r => exact code.obeys_call (.of_guard code htables i) hbase r
        | reply v replyObj answer => exact code.open_reply v replyObj answer _ _ _
        | checkTimeout i => exact code.obeys_checkTimeout (.of_guard code htables i) hbase
        | handleRpcMsg m rpcMeta data context =>
            exact code.obeys_handleRpcMsg (.of_dispatches code rfl) (.of_guard code (htables.cons m)) hbase
              rpcMeta data context
        | causeTimeout m seq_id =>
            exact (code.obeys_handleRpcMsg (.of_dispatches code rfl) (.of_guard code (htables.cons m)) hbase
              _ _ _).bind fun _ => rfl
        | fulfil promise outcome => exact code.open_fulfil promise outcome _ _ _
        | create i => cases hm
        | uninstallClient i => cases hm
        | install v => cases hm
        | uninstallService v => cases hm
        | removeAll m => cases hm

end ProcessCode

end GayRpc
