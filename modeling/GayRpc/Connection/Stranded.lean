import GayRpc.Client.Lost
import GayRpc.Client.Sweep
import GayRpc.Connection.Timers
import GayRpc.Lib.Custody

/-!
# Calls that are left behind

When the timer of a call goes off, the response that `causeTimeout` makes up is dispatched by its
service id, which is 0, like one from the peer. If no client is registered under that id, because it
was uninstalled after the connection was lost or never had the id, the exception that `handleRpcMsg`
throws is swallowed, and nobody comes back to the call.

A sweep may leave calls behind as well. It takes all calls that are due out of the maps before it runs
the first of their callbacks, and an exception of one of them, or an empty one, ends the loop; the calls
after it are forgotten.

`strandsNoCall` says that nothing else leaves a call behind: neither the order of calls, responses, sweeps
and timers, nor what runs beside them. The two conditions are on the steps of the run: of a timer, on the
dispatch table when its handler is looked up (`Heard`), and of a sweep, on the callbacks it takes along
(`Uninterrupted`).

The conditions are put into the programs. `expireIf cond` is the expiry of a timer that goes on only if
`cond` holds of the connection when the handler is looked up, and `sweepIf spares` a sweep that goes on only
if `spares` holds of the callbacks; with conditions that always hold they are the programs of the library
(`expireIf_true`, `sweepIf_true`). So a run in which all steps meet the conditions is a run of
`expiryWorld`.

The proof follows one call of one client, which is in the custody of the maps. Whoever takes it out settles
it: a response to it, a sweep that is not interrupted, or the timer, which is due to take it from when it
goes off.
-/

namespace GayRpc

variable {queue : PriorityQueue WaitResponseTimer WaitResponseTimer.le} {ι D H T Msg Ctx U : Type}
  [DecidableEq ι]

namespace Connection

def Consistent (s : Connection queue ι D H T U) : Prop :=
  ∀ k c, s.clients.lookup k = some c → c.Consistent

/-- While the call waits for its timeout callback, there is one to run. -/
def CallsBack (i : ι) (q : UInt64) (s : Connection queue ι D H T U) : Prop :=
  ∀ t, s.timeoutCallback i q = some t → t.callback.isSome

/-- Either the call of the timer does not wait any more, or the response that is made up for it goes to
the client of the call. -/
def Heard (timer : EventLoopTimer ι) (s : Connection queue ι D H T U) : Prop :=
  (s.timeoutCallback timer.owner timer.seqID).isSome →
    s.manager.find .response 0 = some timer.owner

instance (timer : EventLoopTimer ι) :
    DecidablePred (Heard timer : Connection queue ι D H T U → Prop) := fun s =>
  inferInstanceAs (Decidable ((s.timeoutCallback timer.owner timer.seqID).isSome →
    s.manager.find .response 0 = some timer.owner))

end Connection

/-- The callback is there, and does not throw. -/
def ConnectionCode.returns (code : ConnectionCode ι D H T Msg Ctx U) (t : TimeoutCallback T) : Bool :=
  t.callback.any fun callback => (code.timeout callback).isOk

/-- No callback ends the loop of the sweep as long as others are to come. -/
def ConnectionCode.Uninterrupted (code : ConnectionCode ι D H T Msg Ctx U)
    (callbacks : List (UInt64 × TimeoutCallback T)) : Prop :=
  ∀ p ∈ callbacks.dropLast, code.returns p.2 = true

instance (code : ConnectionCode ι D H T Msg Ctx U) : DecidablePred code.Uninterrupted := fun callbacks =>
  inferInstanceAs (Decidable (∀ p ∈ callbacks.dropLast, code.returns p.2 = true))

open Prog Pool Connection

section

variable (ids : ι → UInt32) (code : ConnectionCode ι D H T Msg Ctx U)
  (cond : EventLoopTimer ι → Connection queue ι D H T U → Prop) [∀ timer, DecidablePred (cond timer)]
  (spares : List (UInt64 × TimeoutCallback T) → Prop) [DecidablePred spares] (timer : EventLoopTimer ι)

/-- What is run when a timer has gone off, held back until `cond`. -/
def notify : ConnectionProg queue ι D H T Msg U :=
  (causeTimeout (Connection.handleRpcMsg code (.expiry timer.owner timer.seqID)) timer.seqID
    code.emptyContext).onlyIf (cond timer)

/-- `expire`, in the runs in which `cond` holds when the handler is looked up. -/
def expireIf : ConnectionProg queue ι D H T Msg U :=
  .act (fun s => if timer ∈ s.eventLoop.timers then some (s.dropTimer timer) else none) fun _ =>
    notify code cond timer

/-- `checkTimeout`, in the runs in which `spares` holds of the callbacks that its section takes along. -/
def sweepIf (i : ι) : ConnectionProg queue ι D H T Msg U :=
  onClient .call i
    (.act some fun h =>
      (Prog.act (Host.onClient fun c => (c.expire h.clock).1) fun h' =>
        runCallbacks (code.client i) (h'.client.expire h.clock).2).onlyIf
          fun h' => spares (h'.client.expire h.clock).2)

/-- `ConnectionOperation` with such timers, and with such sweeps. -/
inductive ExpiryOperation : ConnectionProg queue ι D H T Msg U → Prop where
  | create (i : ι) : ExpiryOperation (create ids i)
  | uninstall (i : ι) : ExpiryOperation (uninstall ids i)
  | request (i : ι) (r : CallRequest D H T Msg) : ExpiryOperation (request ids code i r)
  | respond (i : ι) (rpcMeta : RpcMeta) (data : StringView) (context : Ctx)
      (htype : rpcMeta.type = .response) (hid : rpcMeta.serviceId = ids i) :
      ExpiryOperation (respond code i rpcMeta data context)
  -- sweeps of the client itself, beside the timers of the event loop
  | checkTimeout (i : ι) : ExpiryOperation (sweepIf code spares i)
  | expire (timer : EventLoopTimer ι) : ExpiryOperation (expireIf code cond timer)

/-- `connectionWorld` with sweeps, left with the runs in which `cond` holds whenever a timer has gone off
and its handler is looked up, and `spares` whenever a sweep takes callbacks along. The call of the timer
comes with a callback; what the others come with does not matter. -/
def expiryWorld : World (Connection queue ι D H T U) (ConnectionEvent ι Msg) Empty (Except Exn Unit) where
  env := (connectionWorld ids code).env
  spawn := ExpiryOperation ids code cond spares
  bound := CallsBack timer.owner timer.seqID

def GoesOff (a b : Pool (Connection queue ι D H T U) (ConnectionEvent ι Msg) Empty (Except Exn Unit)) :
    Prop :=
  ∃ l r, a.threads = l ++ expireIf code cond timer :: r ∧ timer ∈ a.state.eventLoop.timers ∧
    b = ⟨a.state.dropTimer timer, l ++ notify code cond timer :: r⟩

/-- Whatever happens to the clients: a timed call that waits at some time (`a`) and whose timer goes off
then or later (from `b` to `c`) has its timeout callback run, unless a response to it has come to its
client by the time (`d`) at which everything that was started is over. -/
def StrandsNoCall (s₀ : Connection queue ι D H T U) : Prop :=
  ∀ {es₁ es₂ es₃ a b c d timer}, Run (expiryWorld ids code cond spares timer) ⟨s₀, []⟩ es₁ a →
    (a.state.timeoutCallback timer.owner timer.seqID).isSome →
    Run (expiryWorld ids code cond spares timer) a es₂ b → GoesOff code cond timer b c →
    Run (expiryWorld ids code cond spares timer) c es₃ d → (∀ p ∈ d.threads, p.Done) →
      (∃ cause, .client cause timer.owner (.timeout timer.seqID timer.seqID) ∈ es₂ ++ es₃) ∨
        ∃ j, .handled (.response j timer.seqID) timer.owner ∈ es₁ ++ (es₂ ++ es₃)

end

variable {ids : ι → UInt32} {code : ConnectionCode ι D H T Msg Ctx U}
  {cond : EventLoopTimer ι → Connection queue ι D H T U → Prop} [∀ timer, DecidablePred (cond timer)]
  {spares : List (UInt64 × TimeoutCallback T) → Prop} [DecidablePred spares] {timer : EventLoopTimer ι}
  {i j k : ι} {q x : UInt64} {cause : Cause ι}

/-- Nothing is held back without a condition. -/
theorem expireIf_true : (expireIf code (fun _ _ => True) timer : ConnectionProg queue ι D H T Msg U) =
    expire code timer := by
  unfold expireIf expire notify causeTimeout Connection.handleRpcMsg
  simp only [Prog.bind, onlyIf, if_true]
  rfl

theorem sweepIf_true : (sweepIf code (fun _ => True) i : ConnectionProg queue ι D H T Msg U) =
    onClient .call i (checkTimeout (code.client i)) := by
  unfold sweepIf checkTimeout
  simp only [onlyIf, if_true]

/-- So whatever may happen on a connection, may happen here. -/
theorem ConnectionOperation.expiryOperation {p : ConnectionProg queue ι D H T Msg U}
    (h : ConnectionOperation ids code p) : ExpiryOperation ids code (fun _ _ => True) spares p := by
  cases h with
  | create k => exact .create k
  | uninstall k => exact .uninstall k
  | request k r => exact .request k r
  | respond k rpcMeta data context htype hid => exact .respond k rpcMeta data context htype hid
  | expire timer =>
      rw [← expireIf_true]
      exact .expire timer

/-! ## The call `q` of the client `i`

One lemma for each program that may run, from the sections of a client up to the operations. -/

/-- A timed call waits for a response to it, or for its timeout callback. -/
def timedCall (i : ι) (q : UInt64) : Custody (Connection queue ι D H T U) (ConnectionEvent ι Msg) where
  inv := Connection.Consistent
  bound := CallsBack i q
  safe s := (s.timeoutCallback i q).isSome
  settles e := ∃ cause, e = .client cause i (.timeout q q)
  ends e := ∃ j, e = .handled (.response j q) i

/-- The client stays consistent, and its call `q` goes on waiting, if `P`. -/
def Host.Retains (P : Prop) (q : UInt64) (h h' : Host queue D H T U) : Prop :=
  h'.Consistent ∧ (P → q ∈ h.client.mTimeoutHandleMap → q ∈ h'.client.mTimeoutHandleMap)

omit [DecidableEq ι] in
theorem callSections_retains (P : Prop) : CallSections (Host.Consistent : Host queue D H T U → Prop)
    (Host.Retains P q) (fun _ : ClientEvent Msg => True) where
  request _ _ := trivial
  setUser _ hs := ⟨hs, fun _ hq => hq⟩
  read hs := ⟨hs, fun _ hq => hq⟩
  allocate hs := ⟨hs.allocate, fun _ hq => hq⟩
  insertTimed hstub ht hs :=
    ⟨hs.insertTimed hstub ht _, fun _ hq => Finmap.mem_insert.mpr (.inr hq)⟩
  insertUntimed hstub htimed hs := ⟨hs.insertUntimed hstub htimed, fun _ hq => hq⟩

namespace Connection

theorem Consistent.host {s : Connection queue ι D H T U} (hs : s.Consistent)
    {h : Host queue D H T (EventLoop ι U)} (hh : s.host? k = some h) : h.Consistent := by
  obtain ⟨c, hc, rfl⟩ := Option.map_eq_some_iff.mp hh
  exact hs k c hc

theorem Consistent.insert {s s' : Connection queue ι D H T U} (hs : s.Consistent)
    {c : BaseClient queue D H T} (hc : c.Consistent) (hs' : s'.clients = s.clients.insert k c) :
    s'.Consistent := by
  intro j c' hc'
  rw [hs'] at hc'
  obtain ⟨-, rfl⟩ | ⟨-, hc'⟩ := Finmap.of_lookup_insert hc'
  · exact hc
  · exact hs j c' hc'

theorem timeoutCallback_setHost (s : Connection queue ι D H T U)
    (h : Host queue D H T (EventLoop ι U)) : (s.setHost k h).timeoutCallback i q =
      if i = k then h.client.mTimeoutHandleMap.lookup q else s.timeoutCallback i q := by
  unfold timeoutCallback setHost
  by_cases hik : i = k
  · subst hik
    simp
  · simp [hik, Finmap.lookup_insert_of_ne]

theorem timeoutCallback_host {s : Connection queue ι D H T U} {h : Host queue D H T (EventLoop ι U)}
    (hh : s.host? k = some h) : s.timeoutCallback k q = h.client.mTimeoutHandleMap.lookup q := by
  obtain ⟨c, hc, rfl⟩ := Option.map_eq_some_iff.mp hh
  simp [timeoutCallback, hc]

end Connection

section minds

variable {due : Prop}

/-- A program of a client that goes on waiting for the call. -/
theorem minds_client {p : ClientProg queue D H T Msg (EventLoop ι U)}
    (hp : p.Guarantees Host.Consistent (Host.Retains (i = k) q) fun _ => True) :
    Minds (timedCall i q) False False (onClient cause k p) := by
  apply Minds.of_guarantees (G := fun _ => True)
  refine Guarantees.within hp (fun s h hs hh => ?_) (fun s h h' hs hh hh' => ?_) fun _ _ => trivial
  · exact hs.1.host hh
  · refine ⟨hs.1.insert hh'.1 rfl, fun hsafe => ?_⟩
    show ((s.setHost k h').timeoutCallback i q).isSome
    rw [timeoutCallback_setHost]
    split
    · next hik =>
        have hmem : q ∈ h.client.mTimeoutHandleMap := by
          subst hik
          rw [← Finmap.lookup_isSome, ← timeoutCallback_host hh]
          exact hsafe
        rw [Finmap.lookup_isSome]
        exact hh'.2 hik hmem
    · exact hsafe

/-- A section of a client may take the call out of the map, for what follows. -/
theorem minds_act {f : Host queue D H T (EventLoop ι U) → Option (Host queue D H T (EventLoop ι U))}
    {kont : Host queue D H T (EventLoop ι U) → ClientProg queue D H T Msg (EventLoop ι U)}
    (hf : ∀ h h', h.Consistent →
      (i = k → ∀ t, h.client.mTimeoutHandleMap.lookup q = some t → t.callback.isSome) → f h = some h' →
        h'.Consistent ∧ ∃ taken : Prop,
          (i = k → q ∈ h.client.mTimeoutHandleMap → q ∈ h'.client.mTimeoutHandleMap ∨ taken) ∧
          (due → i = k ∧ (q ∈ h.client.mTimeoutHandleMap → taken)) ∧
          Minds (timedCall i q) False taken (onClient cause k (kont h))) :
    Minds (timedCall i q) due False (onClient cause k (.act f kont)) := by
  intro s s' hs hb hs'
  obtain ⟨h, hh, hmap⟩ := Option.bind_eq_some_iff.mp hs'
  obtain ⟨h', hh', rfl⟩ := Option.map_eq_some_iff.mp hmap
  -- what is known of the connection, said of the client that the section is on
  have hcalls : i = k → ∀ t, h.client.mTimeoutHandleMap.lookup q = some t → t.callback.isSome := by
    rintro rfl t ht
    apply hb t
    rw [timeoutCallback_host hh, ht]
  have hwaits : i = k → (timedCall i q : Custody _ (ConnectionEvent ι Msg)).safe s →
      q ∈ h.client.mTimeoutHandleMap := by
    rintro rfl hq
    rw [← Finmap.lookup_isSome, ← timeoutCallback_host hh]
    exact hq
  -- and what the section does to it, said of the connection
  obtain ⟨hcons, taken, hsafe, hdue, hk⟩ := hf h h' (Connection.Consistent.host hs hh) hcalls hh'
  refine ⟨Connection.Consistent.insert hs hcons rfl, False, taken, False.elim, ?_, ?_, ?_⟩
  · intro hq
    show ((s.setHost k h').timeoutCallback i q).isSome ∨ taken
    rw [timeoutCallback_setHost]
    split
    · next hik =>
        rw [Finmap.lookup_isSome]
        exact hsafe hik (hwaits hik hq)
    · exact .inl hq
  · intro hd hq
    obtain ⟨hik, htaken⟩ := hdue hd
    exact .inr (htaken (hwaits hik hq))
  · show Minds _ False taken ((s.host? k).elim halt fun h => onClient cause k (kont h))
    rw [hh]
    exact hk

omit [DecidableEq ι] in
theorem uninterrupted_cons {p : UInt64 × TimeoutCallback T} {callbacks : List (UInt64 × TimeoutCallback T)}
    (h : code.Uninterrupted (p :: callbacks)) :
    code.Uninterrupted callbacks ∧ (callbacks = [] ∨ code.returns p.2 = true) := by
  cases callbacks with
  | nil => exact ⟨fun p hp => absurd hp List.not_mem_nil, .inl rfl⟩
  | cons p' callbacks =>
      obtain ⟨hp, hrest⟩ := List.forall_mem_cons.mp h
      exact ⟨hrest, .inr hp⟩

/-- The loop of a sweep settles all the calls whose callbacks it is given. If a callback ends it, that was
the last one. -/
theorem minds_runCallbacks (callbacks : List (UInt64 × TimeoutCallback T))
    (howner : ∀ p ∈ callbacks, p.2.owner = p.1)
    (hcall : i = k → ∀ p ∈ callbacks, p.1 = q → p.2.callback.isSome) (h : code.Uninterrupted callbacks) :
    Minds (timedCall i q) False (i = k ∧ q ∈ callbacks.map Prod.fst)
      (onClient cause k (runCallbacks (code.client k) callbacks) : ConnectionProg queue ι D H T Msg U) := by
  induction callbacks with
  | nil => exact ⟨id, fun h => List.not_mem_nil h.2⟩
  | cons p callbacks ih =>
      obtain ⟨hp, howner⟩ := List.forall_mem_cons.mp howner
      -- either this callback returns, or no other is behind it
      obtain ⟨hrest, hlast⟩ := uninterrupted_cons h
      have hcall' := fun hik => (List.forall_mem_cons.mp (hcall hik)).2
      rw [runCallbacks, runTimeout]
      cases hcallback : p.2.callback with
      | none =>
          -- the call is not the one that comes with a callback
          obtain rfl := hlast.resolve_right (by simp [ConnectionCode.returns, hcallback])
          refine ⟨id, ?_⟩
          rintro ⟨hik, hmem⟩
          have hsome := hcall hik p (.head _) (List.mem_singleton.mp hmem).symm
          simp [hcallback] at hsome
      | some callback =>
          refine .inr ⟨i = k ∧ q ∈ callbacks.map Prod.fst, ?_, ?_⟩
          · rintro ⟨hik, hmem⟩
            -- the call is the one whose callback runs now, or waits further down the list
            rcases List.mem_cons.mp hmem with rfl | hmem
            · subst hik
              exact .inl ⟨cause, by rw [hp]⟩
            · exact .inr ⟨hik, hmem⟩
          · show Minds _ False _ (onClient cause k (Prog.bind (.ret (code.timeout callback)) _))
            cases hends : code.timeout callback with
            | ok _ => exact ih howner hcall' hrest
            | error e =>
                obtain rfl := hlast.resolve_right (by
                  simp [ConnectionCode.returns, hcallback, hends, Except.isOk, Except.toBool])
                exact ⟨id, fun h => List.not_mem_nil h.2⟩

/-- A sweep that is not interrupted runs the callbacks of all the calls it takes along. -/
theorem minds_checkTimeout : Minds (timedCall i q) False False
    (sweepIf code code.Uninterrupted k : ConnectionProg queue ι D H T Msg U) := by
  apply minds_act
  intro h h' hcons _ hf
  obtain rfl := Option.some.inj hf
  refine ⟨hcons, False, fun _ => .inl, False.elim, ?_⟩
  -- the section goes by the clock that was read
  apply minds_act
  intro h₁ h₂ hcons₁ hcalls₁ hf₁
  obtain ⟨hspared, hf₁⟩ := Option.ite_none_right_eq_some.mp hf₁
  obtain rfl := Option.some.inj hf₁
  obtain ⟨due, hsweeps⟩ := h₁.client.expire_sweeps h.clock
  obtain ⟨hcons₂, howner⟩ := BaseClient.Consistent.rounds hcons₁ (h₁.client.expire_rounds h.clock)
  refine ⟨hcons₂, i = k ∧ q ∈ (h₁.client.expire h.clock).2.map Prod.fst, ?_, False.elim, ?_⟩
  · intro hik hq
    by_cases hmem : q ∈ (h₁.client.expire h.clock).2.map Prod.fst
    · exact .inr ⟨hik, hmem⟩
    · left
      show q ∈ (h₁.client.expire h.clock).1.mTimeoutHandleMap
      rw [← Finmap.lookup_isSome, (hsweeps.kept q hmem).2, Finmap.lookup_isSome]
      exact hq
  · refine minds_runCallbacks _ howner (fun hik p hp hpq => ?_) hspared
    subst hpq
    exact hcalls₁ hik p.2 (hsweeps.callback p hp)

/-- A response that is not for the call. -/
theorem minds_processRpcResponse {rpcMeta : RpcMeta} {data : StringView} {context : Ctx}
    (h : i = k → rpcMeta.responseInfo.sequenceId ≠ q) :
    Minds (timedCall i q) False False (onClient cause k
      (processRpcResponse (code.client k) rpcMeta data context) : ConnectionProg queue ι D H T Msg U) := by
  apply minds_client
  apply (callSections_retains (i = k)).processRpcResponse
  · intro s hs
    refine ⟨BaseClient.Consistent.forget hs _, fun hik hq => ?_⟩
    exact Finmap.mem_erase.mpr ⟨(h hik).symm, hq⟩
  · intro _ _ _ _
    trivial
  · intro _ _ _ _ _
    trivial

/-- The response that is made up for the call. -/
theorem minds_timeoutMeta {data : StringView} {context : Ctx} (hdue : due → i = k) :
    Minds (timedCall i q) due False (onClient cause k
      (processRpcResponse (code.client k) (timeoutMeta q) data context) :
        ConnectionProg queue ι D H T Msg U) := by
  rw [processRpcResponse_eq _ _ _ _ (by rfl)]
  apply minds_act
  intro h h' hcons hcalls hf
  obtain rfl := Option.some.inj hf
  refine ⟨BaseClient.Consistent.forget hcons q, i = k ∧ q ∈ h.client.mTimeoutHandleMap,
    fun hik hq => .inr ⟨hik, hq⟩, fun hd => ⟨hdue hd, fun hq => ⟨hdue hd, hq⟩⟩, ?_⟩
  rw [afterSection_timeoutMeta]
  cases ht : h.client.mTimeoutHandleMap.lookup q with
  | none =>
      refine ⟨id, fun ⟨_, hq⟩ => ?_⟩
      -- without an entry the call was not pending
      exact absurd (Finmap.lookup_eq_none.mp ht) (not_not.mpr hq)
  | some t =>
      dsimp only
      cases hcallback : t.callback with
      | none =>
          refine ⟨id, fun ⟨hik, _⟩ => ?_⟩
          -- the call that is minded has a callback
          simpa [hcallback] using hcalls hik t ht
      | some callback =>
          dsimp only
          rw [hcons.timeout_owner ht]
          -- the callback runs now, which is what the mark stands for
          refine .inr ⟨False, fun ⟨hik, _⟩ => .inl ?_, id, id⟩
          subst hik
          exact ⟨cause, rfl⟩

/-- Whoever is called for a timer that has gone off. -/
theorem minds_expiry {y : UInt64} {data : StringView} {context : Ctx} (handle : Except Exn ι)
    (hdue : due → handle = .ok i ∧ y = q) : Minds (timedCall i q) due False
      (callHandler code (.expiry j x) (timeoutMeta y) data context handle :
        ConnectionProg queue ι D H T Msg U) := by
  cases handle with
  | error e =>
      refine ⟨fun hd => ?_, id⟩
      cases (hdue hd).1
  | ok k =>
      have hdue' : due → i = k ∧ y = q := fun hd => ⟨(Except.ok.inj (hdue hd).1).symm, (hdue hd).2⟩
      refine .inr ⟨False, False.elim, ?_⟩
      by_cases hy : y = q
      · subst hy
        exact minds_timeoutMeta fun hd => (hdue' hd).1
      · have hother : Minds (timedCall i q) False False (onClient (.expiry j x) k
            (processRpcResponse (code.client k) (timeoutMeta y) data context) :
              ConnectionProg queue ι D H T Msg U) := minds_processRpcResponse fun _ => hy
        apply hother.mono
        · exact fun hd => absurd (hdue' hd).2 hy
        · exact id

/-- If the call waits when the handler is looked up, then its client is called. -/
theorem minds_notify (hdue : due → timer.owner = i ∧ timer.seqID = q) :
    Minds (timedCall i q) due False (notify code Heard timer : ConnectionProg queue ι D H T Msg U) := by
  intro s s' hs hb hf
  obtain ⟨hheard, hf⟩ := Option.ite_none_right_eq_some.mp hf
  obtain rfl := Option.some.inj hf
  refine ⟨hs, due ∧ (s.timeoutCallback i q).isSome, False, id, .inl, fun hd hq => .inl ⟨hd, hq⟩, ?_⟩
  refine (minds_expiry _ ?_).bind fun _ => ⟨id, id⟩
  rintro ⟨hd, hq⟩
  obtain ⟨rfl, rfl⟩ := hdue hd
  refine ⟨?_, rfl⟩
  exact (RpcTypeHandleManager.handleRpcMsg_eq_ok_iff _ _ _).mpr (hheard hq)

theorem minds_respond {rpcMeta : RpcMeta} {data : StringView} {context : Ctx} :
    Minds (timedCall i q) False False
      (respond code j rpcMeta data context : ConnectionProg queue ι D H T Msg U) := by
  apply Minds.act
  intro s s' hs _ hf
  obtain ⟨-, hf⟩ := Option.ite_none_right_eq_some.mp hf
  obtain rfl := Option.some.inj hf
  refine ⟨hs, id, ?_⟩
  show Minds _ _ _ (callHandler code _ rpcMeta data context (s.manager.handleRpcMsg rpcMeta))
  cases s.manager.handleRpcMsg rpcMeta with
  | error e => exact ⟨id, id⟩
  | ok k =>
      by_cases hq : k = i ∧ rpcMeta.responseInfo.sequenceId = q
      · obtain ⟨rfl, rfl⟩ := hq
        exact .inl ⟨j, rfl⟩
      · refine .inr ⟨False, False.elim, minds_processRpcResponse fun hik hx => ?_⟩
        exact hq ⟨hik.symm, hx⟩

/-- Nothing that may be started takes the call away without settling it. -/
theorem expiryWorld_minds : (expiryWorld ids code Heard code.Uninterrupted timer :
    World (Connection queue ι D H T U) (ConnectionEvent ι Msg) _ _).Minds
      (timedCall timer.owner timer.seqID) where
  bound _ hb := hb
  env_inv s s' he hs := by
    intro k c hc
    rw [he.2.1] at hc
    exact hs k c hc
  env_safe s s' he hq := by
    show ((s'.clients.lookup timer.owner).bind fun c => c.mTimeoutHandleMap.lookup timer.seqID).isSome
    rw [he.2.1]
    exact hq
  spawn p hp := by
    cases hp with
    | create k =>
        apply Minds.act
        intro s s' hs _ hf
        obtain ⟨hk, hf⟩ := Option.ite_none_left_eq_some.mp hf
        obtain rfl := Option.some.inj hf
        refine ⟨Connection.Consistent.insert hs .fresh rfl, fun hq => ?_, id, id⟩
        -- a client that is created is not the one that has the call
        have hik : timer.owner ≠ k := by
          rintro rfl
          have hnone : s.timeoutCallback timer.owner timer.seqID = none := by
            simp [timeoutCallback, Finmap.lookup_eq_none.mpr hk]
          simp [timedCall, hnone] at hq
        show (((s.clients.insert k {}).lookup timer.owner).bind fun c =>
          c.mTimeoutHandleMap.lookup timer.seqID).isSome
        rw [Finmap.lookup_insert_of_ne _ hik]
        exact hq
    | uninstall k =>
        apply Minds.act
        intro s s' hs _ hf
        obtain ⟨-, hf⟩ := Option.ite_none_right_eq_some.mp hf
        obtain rfl := Option.some.inj hf
        -- the client stays in the map of clients, and so does the call
        exact ⟨hs, id, id, id⟩
    | request k r => exact minds_client ((callSections_retains _).call _)
    | respond k rpcMeta data context htype hid => exact minds_respond
    | checkTimeout k => exact minds_checkTimeout
    | expire timer =>
        apply Minds.act
        intro s s' hs _ hf
        obtain ⟨-, hf⟩ := Option.ite_none_right_eq_some.mp hf
        obtain rfl := Option.some.inj hf
        exact ⟨hs, id, minds_notify False.elim⟩

end minds

abbrev checkedConnection : ConnectionCode Unit Unit Unit Unit Unit Unit Unit :=
  plainConnection.timeoutChecked (fun _ => []) fun _ => []

/-- A client whose calls have callbacks, alone on its connection. -/
theorem callsBack_of_lookup {s : PlainConnection} {c : BaseClient (.sorted WaitResponseTimer.le) Unit Unit Unit}
    (hc : s.clients.lookup () = some c)
    (hcalls : ∀ q t, c.mTimeoutHandleMap.lookup q = some t → t.callback.isSome) : s.CallsBack () 0 := by
  intro t ht
  apply hcalls 0 t
  simpa [timeoutCallback, hc] using ht

theorem tenSecondCall_waits (cond : EventLoopTimer Unit → PlainConnection → Prop)
    [∀ timer, DecidablePred (cond timer)] (spares : List (UInt64 × TimeoutCallback Unit) → Prop)
    [DecidablePred spares] :
    ∃ es s ts, Run (expiryWorld (fun _ => 0) checkedConnection cond spares tenSecondTimer)
        ⟨(.fresh 0 () : PlainConnection), []⟩ es ⟨s, ts⟩ ∧
      (∀ p ∈ ts, p.Done) ∧ (∀ cause i, .handled cause i ∉ es) ∧
      s.clients.lookup () = some waitingClient ∧ s.eventLoop.timers = [tenSecondTimer] ∧
      s.manager = (({} : RpcTypeHandleManager Unit).registerTypeHandle .response () 0).2 := by
  have hempty : ∀ {c : BaseClient (.sorted WaitResponseTimer.le) Unit Unit Unit} {s : PlainConnection},
      s.clients.lookup () = some c → c.mTimeoutHandleMap = ∅ → s.CallsBack () 0 := by
    intro c s hs hc
    apply callsBack_of_lookup hs
    simp [hc]
  have hwaiting : ∀ {s : PlainConnection}, s.clients.lookup () = some waitingClient → s.CallsBack () 0 :=
    fun hs => callsBack_of_lookup hs fun _ _ ht => waitingClient_nonEmpty.timeout ht
  have h1 : Run (expiryWorld (fun _ => 0) checkedConnection cond spares tenSecondTimer)
      ⟨(.fresh 0 () : PlainConnection), []⟩ [] ⟨_, [create (fun _ => 0) ()]⟩ :=
    .single (.spawn [] (.create ()))
  have h2 := h1.tail (.act [] [] rfl (hempty (Finmap.lookup_insert _) rfl))
  have h3 := h2.tail (.spawn _ (.request () tenSecondCall))
  have h4 := h3.tail (.act [] _ rfl (hempty (Finmap.lookup_insert _) rfl))
  have h5 := h4.tail (.act [] _ rfl (hempty (Finmap.lookup_insert _) rfl))
  have h6 := h5.tail (.act [] _ rfl (hwaiting (Finmap.lookup_insert _)))
  have h7 := h6.tail (.emit [] _ _ (hwaiting (Finmap.lookup_insert _)))
  -- the timer has been started with the event loop, and the request is out
  have h8 := h7.tail (.act [] _ rfl (hwaiting (Finmap.lookup_insert _)))
  refine ⟨_, _, _, h8, ?_, by simp, Finmap.lookup_insert _, rfl, rfl⟩
  rintro p (_ | ⟨_, _ | ⟨_, hp⟩⟩)
  · trivial
  · trivial
  · cases hp

end GayRpc
