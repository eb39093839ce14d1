import GayRpc.Client.AtMostOnce
import GayRpc.Connection.Routing

/-!
# Timers

`causeTimeout` makes up a response for the call whose timer has gone off, and leaves its service id
unset. So the response goes to the client with the service id 0, whose calls have the same numbers.

`TimerHits` is what an expiry is for: left alone, it comes to its end, has run the timeout callback of its
call, if there is one, has taken the call out of the maps, and has touched no other call. What an expiry
does is computed (`runsTo_expire_iff`): the table is looked up under the id 0, and if there is a client,
it deals with the timeout as with any other one (`runsTo_callHandler_timeout`).

So a timer of a client with the id 0 hits. A timer of another client hits only if there is nothing to do,
that is if its call does not wait any more, and no call of the client with the id 0 has the same number
(`timerHits_iff`).
-/

namespace GayRpc

variable {queue : PriorityQueue WaitResponseTimer WaitResponseTimer.le} {ι D H T Msg Ctx U : Type}
  [DecidableEq ι]

/-- What the expiry of a timer is for: it runs the timeout callback of its call, if there is one,
takes the call out of the maps, and touches no other call. -/
structure HitsItsCall (timer : EventLoopTimer ι) (s : Connection queue ι D H T U)
    (es : List (ConnectionEvent ι Msg)) (s' : Connection queue ι D H T U) : Prop where
  runs : ∀ t, s.timeoutCallback timer.owner timer.seqID = some t → t.callback.isSome →
    .client (.expiry timer.owner timer.seqID) timer.owner (.timeout timer.seqID timer.seqID) ∈ es
  leaves : ¬ s'.Pending timer.owner timer.seqID
  others : ∀ i q, (i, q) ≠ (timer.owner, timer.seqID) →
    s'.stub i q = s.stub i q ∧ s'.timeoutCallback i q = s.timeoutCallback i q
  quiet : ∀ cause i e, .client cause i e ∈ es →
    i = timer.owner ∧ e = .timeout timer.seqID timer.seqID

/-- The clients make their calls through chains that contain `withTimeoutCheck`. -/
def ConnectionCode.timeoutChecked
    (before after : ι → List (UnaryServerInterceptor (EventLoop ι U) Empty Msg Ctx))
    (code : ConnectionCode ι D H T Msg Ctx U) : ConnectionCode ι D H T Msg Ctx U :=
  { code with outbound := fun i => makeInterceptor (before i ++ withTimeoutCheck i :: after i) }

namespace Connection

def forget (i : ι) (q : UInt64) (s : Connection queue ι D H T U) : Connection queue ι D H T U :=
  match s.clients.lookup i with
  | some c => { s with clients := s.clients.insert i (c.forget q) }
  | none => s

def dropTimer (timer : EventLoopTimer ι) (s : Connection queue ι D H T U) :
    Connection queue ι D H T U :=
  { s with eventLoop := { s.eventLoop with timers := s.eventLoop.timers.erase timer } }

section lemmas

variable (s : Connection queue ι D H T U) (i j : ι) (q r : UInt64)

/-- What the maps of the clients hold, when one client has let go of a call. -/
theorem bind_lookup_forget {β : Type} (get : UInt64 → BaseClient queue D H T → Option β)
    (hget : ∀ c, get r (c.forget q) = if r = q then none else get r c) :
    ((s.forget i q).clients.lookup j).bind (get r) =
      if (j, r) = (i, q) then none else (s.clients.lookup j).bind (get r) := by
  unfold forget
  by_cases hj : j = i
  · subst hj
    cases hc : s.clients.lookup j with
    | none => simp [hc]
    | some c => simp [hget]
  · cases s.clients.lookup i with
    | none => simp [hj]
    | some c => simp [hj, Finmap.lookup_insert_of_ne]

theorem stub_forget :
    (s.forget i q).stub j r = if (j, r) = (i, q) then none else s.stub j r :=
  s.bind_lookup_forget i j q r (fun r c => c.mStubHandleMap.lookup r)
    fun c => c.mStubHandleMap.lookup_erase_eq_ite q r

theorem timeoutCallback_forget :
    (s.forget i q).timeoutCallback j r = if (j, r) = (i, q) then none else s.timeoutCallback j r :=
  s.bind_lookup_forget i j q r (fun r c => c.mTimeoutHandleMap.lookup r)
    fun c => c.mTimeoutHandleMap.lookup_erase_eq_ite q r

end lemmas

def timeoutEvents (cause : Cause ι) (i : ι) (q : UInt64) (s : Connection queue ι D H T U) :
    List (ConnectionEvent ι Msg) :=
  match s.timeoutCallback i q with
  | some t => if t.callback.isSome then [.client cause i (.timeout q t.owner)] else []
  | none => []

end Connection

open Prog Connection

variable {ids : ι → UInt32} {code : ConnectionCode ι D H T Msg Ctx U} {timer : EventLoopTimer ι}
  {s s' : Connection queue ι D H T U} {es : List (ConnectionEvent ι Msg)}

omit [DecidableEq ι] in
/-- A timeout runs the callback it finds, and that is all. -/
theorem afterSection_timeoutMeta (i : ι) (q : UInt64) (data : StringView) (context : Ctx)
    (h : Host queue D H T (EventLoop ι U)) :
    afterSection (code.client i) (timeoutMeta q) data context h =
      match h.client.mTimeoutHandleMap.lookup q with
      | some t =>
        match t.callback with
        | some callback => .emit (.timeout q t.owner) (.ret (code.timeout callback))
        | none => .ret (.ok ())
      | none => .ret (.ok ()) := by
  show (match h.client.mTimeoutHandleMap.lookup q with
    | some t => if t.callback.isSome then runTimeout (code.client i) q t else .ret (.ok ())
    | none => .ret (.ok ())) = _
  cases h.client.mTimeoutHandleMap.lookup q with
  | none => rfl
  | some t =>
      dsimp only
      cases ht : t.callback with
      | none => rfl
      | some callback =>
          rw [runTimeout, ht]
          rfl

/-- The handler of a client deals with a timeout. -/
theorem runsTo_callHandler_timeout {cause : Cause ι} {i : ι} {q : UInt64} (hi : i ∈ s.clients)
    (data : StringView) (context : Ctx) :
    ((callHandler code cause (timeoutMeta q) data context (.ok i)).bind fun _ =>
        .ret (.ok ()) : ConnectionProg queue ι D H T Msg U).RunsTo s es s' ↔
      es = .handled cause i :: s.timeoutEvents cause i q ∧ s' = s.forget i q := by
  obtain ⟨c, hc⟩ := Finmap.mem_iff.mp hi
  have htype : (timeoutMeta q).type = .response := rfl
  have hq : (timeoutMeta q).responseInfo.sequenceId = q := rfl
  have hhost : s.host? i = some { client := c, clock := s.clock, user := s.eventLoop } := by
    simp [host?, hc]
  have hset : s.setHost i { client := c.forget q, clock := s.clock, user := s.eventLoop } =
      s.forget i q := by
    simp [setHost, forget, hc]
  have hevents : s.timeoutCallback i q = c.mTimeoutHandleMap.lookup q := by
    simp [timeoutCallback, hc]
  rw [callHandler, processRpcResponse_eq _ _ _ _ htype, hq]
  simp only [onClient, Prog.within, Prog.bind, runsTo_emit, runsTo_act, hhost, Option.bind_some,
    Option.elim_some, Host.onClient, Option.map_some, Option.some_inj, afterSection_timeoutMeta,
    exists_eq_left', hset, timeoutEvents, hevents]
  -- what is run is told by the entry alone, and the rest of the state by `forget`
  cases c.mTimeoutHandleMap.lookup q with
  | none => simp [Prog.within, Prog.bind]
  | some t =>
      dsimp only
      cases t.callback with
      | none => simp [Prog.within, Prog.bind]
      | some callback => simp [Prog.within, Prog.bind]

/-- An expiry looks up the handler of what it has made up, and calls it. -/
theorem runsTo_expire_iff (ht : timer ∈ s.eventLoop.timers) :
    (expire code timer : ConnectionProg queue ι D H T Msg U).RunsTo s es s' ↔
      ((callHandler code (.expiry timer.owner timer.seqID) (timeoutMeta timer.seqID)
        { base := [], offset := 0, size := 0 } code.emptyContext
        (s.manager.handleRpcMsg (timeoutMeta timer.seqID))).bind fun _ =>
          .ret (.ok ()) : ConnectionProg queue ι D H T Msg U).RunsTo (s.dropTimer timer) es s' := by
  rw [expire, runsTo_act, if_pos ht]
  simp only [Option.some_inj, exists_eq_left', causeTimeout, Connection.handleRpcMsg, Prog.bind,
    runsTo_act]
  rfl

/-- What a timer makes up is for the client with the id 0. -/
theorem runsTo_expire (hs : s.Routed ids) (ht : timer ∈ s.eventLoop.timers) {z : ι}
    (hz : s.Installed z) (hid : ids z = 0) :
    (expire code timer : ConnectionProg queue ι D H T Msg U).RunsTo s es s' ↔
      es = .handled (.expiry timer.owner timer.seqID) z ::
          s.timeoutEvents (.expiry timer.owner timer.seqID) z timer.seqID ∧
        s' = (s.dropTimer timer).forget z timer.seqID := by
  have hfind : s.manager.handleRpcMsg (timeoutMeta timer.seqID) = .ok z :=
    (RpcTypeHandleManager.handleRpcMsg_eq_ok_iff _ _ _).mpr (hs.find_iff.mpr ⟨hz, hid⟩)
  have hmem : z ∈ (s.dropTimer timer).clients := hz.1
  rw [runsTo_expire_iff ht, hfind]
  exact runsTo_callHandler_timeout hmem _ _

/-- Without a client with the id 0 it is thrown away. -/
theorem runsTo_expire_of_none (hs : s.Routed ids) (ht : timer ∈ s.eventLoop.timers)
    (hnone : ∀ z, s.Installed z → ids z ≠ 0) :
    (expire code timer : ConnectionProg queue ι D H T Msg U).RunsTo s es s' ↔
      es = [] ∧ s' = s.dropTimer timer := by
  rw [runsTo_expire_iff ht]
  cases hz : s.manager.handleRpcMsg (timeoutMeta timer.seqID) with
  | error e => simp [callHandler, Prog.bind]
  | ok z =>
      rw [RpcTypeHandleManager.handleRpcMsg_eq_ok_iff] at hz
      obtain ⟨hinst, hid⟩ := hs.find_iff.mp hz
      exact absurd hid (hnone z hinst)

/-! ## Which timers hit

With the service ids apart, the table leads to the client with the id 0 if it is installed, and nowhere
otherwise. -/

/-- An expiry comes to its end, and hits its call. -/
def TimerHits (code : ConnectionCode ι D H T Msg Ctx U) (timer : EventLoopTimer ι)
    (s : Connection queue ι D H T U) : Prop :=
  (∃ es s', (expire code timer : ConnectionProg queue ι D H T Msg U).RunsTo s es s') ∧
    ∀ es s', (expire code timer : ConnectionProg queue ι D H T Msg U).RunsTo s es s' →
      HitsItsCall timer s es s'

theorem mem_timeoutEvents (hs : s.Routed ids) {cause cause' : Cause ι} {i j : ι} {q : UInt64}
    {e : ClientEvent Msg} :
    .client cause' j e ∈ s.timeoutEvents cause i q ↔
      (cause' = cause ∧ j = i ∧ e = .timeout q q) ∧
        ∃ t, s.timeoutCallback i q = some t ∧ t.callback.isSome := by
  unfold timeoutEvents
  cases ht : s.timeoutCallback i q with
  | none => simp
  | some t =>
      obtain ⟨c, hc, hct⟩ := Option.bind_eq_some_iff.mp ht
      have howner : t.owner = q := (hs.consistent hc).timeout_owner hct
      cases hcall : t.callback with
      | none => simp [hcall]
      | some callback => simp [hcall, howner]

theorem pending_forget {i j : ι} {q r : UInt64} :
    (s.forget i q).Pending j r ↔ (j, r) ≠ (i, q) ∧ s.Pending j r := by
  unfold Pending
  rw [stub_forget, timeoutCallback_forget]
  split
  · next h => simp [h]
  · next h => simp [h]

/-- The timers of a client with the id 0 hit. -/
theorem timerHits_of_eq_zero (hs : s.Routed ids) (ht : timer ∈ s.eventLoop.timers)
    (hinst : s.Installed timer.owner) (hid : ids timer.owner = 0) : TimerHits code timer s := by
  refine ⟨⟨_, _, (runsTo_expire hs ht hinst hid).mpr ⟨rfl, rfl⟩⟩, fun es s' hrun => ?_⟩
  obtain ⟨rfl, rfl⟩ := (runsTo_expire hs ht hinst hid).mp hrun
  refine ⟨fun t htc hcall => ?_, fun hp => ?_, fun i q hne => ?_, fun cause i e he => ?_⟩
  · exact .tail _ ((mem_timeoutEvents hs).mpr ⟨⟨rfl, rfl, rfl⟩, t, htc, hcall⟩)
  · exact (pending_forget.mp hp).1 rfl
  · rw [stub_forget, timeoutCallback_forget, if_neg hne, if_neg hne]
    exact ⟨rfl, rfl⟩
  · rcases he with _ | ⟨_, he⟩
    obtain ⟨⟨-, hi, he⟩, -⟩ := (mem_timeoutEvents hs).mp he
    exact ⟨hi, he⟩

/-- The timers of another client hit when they have nothing to do, and cannot do any harm. -/
theorem timerHits_of_not_pending (hs : s.Routed ids) (ht : timer ∈ s.eventLoop.timers)
    (howner : ¬ s.Pending timer.owner timer.seqID)
    (hzero : ∀ z, s.Installed z → ids z = 0 → ¬ s.Pending z timer.seqID) :
    TimerHits code timer s := by
  have hnone : s.timeoutCallback timer.owner timer.seqID = none := by
    by_contra hne
    exact howner (.inr (Option.isSome_iff_ne_none.mpr hne))
  -- a timer goes to the client whose id is 0, if there is one
  by_cases hz : ∃ z, s.Installed z ∧ ids z = 0
  · obtain ⟨z, hz, hid⟩ := hz
    have hznot := hzero z hz hid
    refine ⟨⟨_, _, (runsTo_expire hs ht hz hid).mpr ⟨rfl, rfl⟩⟩, fun es s' hrun => ?_⟩
    obtain ⟨rfl, rfl⟩ := (runsTo_expire hs ht hz hid).mp hrun
    refine ⟨fun t htc _ => ?_, fun hp => ?_, fun i q _ => ?_, fun cause i e he => ?_⟩
    · rw [hnone] at htc
      cases htc
    · exact howner (pending_forget.mp hp).2
    · rw [stub_forget, timeoutCallback_forget]
      split
      · next heq =>
          obtain ⟨rfl, rfl⟩ := Prod.mk.inj heq
          obtain ⟨hstub, htimeout⟩ := not_or.mp hznot
          exact ⟨(Option.not_isSome_iff_eq_none.mp hstub).symm,
            (Option.not_isSome_iff_eq_none.mp htimeout).symm⟩
      · exact ⟨rfl, rfl⟩
    · rcases he with _ | ⟨_, he⟩
      obtain ⟨-, t, htc, -⟩ := (mem_timeoutEvents hs).mp he
      exact absurd (.inr (Option.isSome_iff_exists.mpr ⟨t, htc⟩)) hznot
  -- or else it is dropped
  · have hnot : ∀ z, s.Installed z → ids z ≠ 0 := fun z hinst hid => hz ⟨z, hinst, hid⟩
    refine ⟨⟨_, _, (runsTo_expire_of_none hs ht hnot).mpr ⟨rfl, rfl⟩⟩, fun es s' hrun => ?_⟩
    obtain ⟨rfl, rfl⟩ := (runsTo_expire_of_none hs ht hnot).mp hrun
    refine ⟨fun t htc _ => ?_, howner, fun i q _ => ⟨rfl, rfl⟩, fun cause i e he => ?_⟩
    · rw [hnone] at htc
      cases htc
    · cases he

/-- A timer that hits although the id of its client is not 0 has nothing to do. -/
theorem not_pending_of_timerHits (hs : s.Routed ids) (ht : timer ∈ s.eventLoop.timers)
    (hid : ids timer.owner ≠ 0) (h : TimerHits code timer s) :
    ¬ s.Pending timer.owner timer.seqID ∧
      ∀ z, s.Installed z → ids z = 0 → ¬ s.Pending z timer.seqID := by
  -- the response carries service id 0: either some client has it, or nobody hears of it
  by_cases hz : ∃ z, s.Installed z ∧ ids z = 0
  · obtain ⟨z, hz, hzid⟩ := hz
    have hhits := h.2 _ _ ((runsTo_expire hs ht hz hzid).mpr ⟨rfl, rfl⟩)
    have hne : timer.owner ≠ z := fun heq => hid (heq ▸ hzid)
    refine ⟨fun hp => hhits.leaves (pending_forget.mpr ⟨?_, hp⟩), fun z' hz' hzid' hp => ?_⟩
    · intro heq
      exact hne (Prod.mk.inj heq).1
    · -- there is one client with the id, so it is the one that was hit
      have hfind := hs.find_iff.mpr ⟨hz, hzid⟩
      rw [hs.find_iff.mpr ⟨hz', hzid'⟩] at hfind
      obtain rfl := Option.some.inj hfind
      obtain ⟨hstub, htimeout⟩ := hhits.others z' timer.seqID fun heq =>
        hne (Prod.mk.inj heq).1.symm
      rw [stub_forget, if_pos rfl] at hstub
      rw [timeoutCallback_forget, if_pos rfl] at htimeout
      rcases hp with hp | hp
      · simp [← hstub] at hp
      · simp [← htimeout] at hp
  · have hnot : ∀ z, s.Installed z → ids z ≠ 0 := fun z hinst hzid => hz ⟨z, hinst, hzid⟩
    have hhits := h.2 _ _ ((runsTo_expire_of_none hs ht hnot).mpr ⟨rfl, rfl⟩)
    exact ⟨hhits.leaves, fun z hinst hzid => absurd hzid (hnot z hinst)⟩

/-- At any time of any run, the expiry of a timer does what it is for just when the service id of its
client is 0, or else when its call is not pending any more, nor the call with the same number of the
client that has the id 0. -/
theorem timerHits_iff (hids : Function.Injective ids)
    (before after : ι → List (UnaryServerInterceptor (EventLoop ι U) Empty Msg Ctx))
    {clock : Int64} {user : U} {ts : List (ConnectionProg queue ι D H T Msg U)}
    (h : Pool.Run (connectionWorld ids (code.timeoutChecked before after))
      ⟨.fresh clock user, []⟩ es ⟨s, ts⟩)
    (ht : timer ∈ s.eventLoop.timers) (hinst : s.Installed timer.owner) :
    TimerHits (code.timeoutChecked before after) timer s ↔
      ids timer.owner = 0 ∨
        (¬ s.Pending timer.owner timer.seqID ∧
          ∀ z, s.Installed z → ids z = 0 → ¬ s.Pending z timer.seqID) := by
  obtain ⟨hs, -⟩ := run_routed hids h
  constructor
  · intro hhits
    by_cases hid : ids timer.owner = 0
    · exact .inl hid
    · exact .inr (not_pending_of_timerHits hs ht hid hhits)
  · rintro (hid | ⟨howner, hzero⟩)
    · exact timerHits_of_eq_zero hs ht hinst hid
    · exact timerHits_of_not_pending hs ht howner hzero

/-! One client, with a timed call that is not answered. -/

def plainConnection : ConnectionCode Unit Unit Unit Unit Unit Unit Unit where
  codec := plainCode.codec
  inbound _ args := .ask args .ret
  outbound _ args := .ask args .ret
  emptyContext := ()
  handle _ _ _ := .ok ()
  timeout _ := .ok ()

def tenSecondCall : CallRequest Unit Unit Unit Unit := ⟨(), 0, 2, (), some (), some (10, some ())⟩

def tenSecondTimer : EventLoopTimer Unit := { owner := (), seqID := 0, seconds := 10 }

abbrev PlainConnection : Type := Connection (.sorted WaitResponseTimer.le) Unit Unit Unit Unit Unit

theorem tenSecondCall_reachable (id : UInt32) :
    ∃ es s ts, Pool.Run (connectionWorld (fun _ => id)
        (plainConnection.timeoutChecked (fun _ => []) fun _ => []))
        ⟨(.fresh 0 () : PlainConnection), []⟩ es ⟨s, ts⟩ ∧
      tenSecondTimer ∈ s.eventLoop.timers ∧ s.Installed () ∧ s.Pending () 0 := by
  have h1 : Pool.Run (connectionWorld (fun _ => id)
      (plainConnection.timeoutChecked (fun _ => []) fun _ => []))
      ⟨(.fresh 0 () : PlainConnection), []⟩ [] ⟨_, [create (fun _ => id) ()]⟩ :=
    .single (.spawn [] (.create ()))
  have h2 := h1.tail (.act [] [] rfl trivial)
  have h3 := h2.tail (.spawn _ (.request () tenSecondCall))
  have h4 := h3.tail (.act [] _ rfl trivial)
  have h5 := h4.tail (.act [] _ rfl trivial)
  have h6 := h5.tail (.act [] _ rfl trivial)
  have h7 := h6.tail (.emit [] _ _ trivial)
  have h8 := h7.tail (.act [] _ rfl trivial)
  refine ⟨_, _, _, h8, ?_, ?_, ?_⟩
  · exact .head _
  · exact ⟨Finmap.mem_insert.mpr (.inl rfl), Set.notMem_empty _⟩
  · exact .inl rfl

theorem timerHits_iff_example :
    ∃ es s ts, Pool.Run (connectionWorld (fun _ => 0)
        (plainConnection.timeoutChecked (fun _ => []) fun _ => []))
        ⟨(.fresh 0 () : PlainConnection), []⟩ es ⟨s, ts⟩ ∧
      TimerHits (plainConnection.timeoutChecked (fun _ => []) fun _ => []) tenSecondTimer s := by
  obtain ⟨es, s, ts, hrun, htimer, hinst, -⟩ := tenSecondCall_reachable 0
  have hids : Function.Injective fun _ : Unit => (0 : UInt32) := fun _ _ _ => rfl
  have hiff := timerHits_iff hids (fun _ => []) (fun _ => []) hrun htimer hinst
  exact ⟨es, s, ts, hrun, hiff.mpr (.inl rfl)⟩

/-- With the service id 1, the timer of a pending call goes off, and the call goes on waiting. -/
theorem tenSecondTimer_misses :
    ∃ es s ts, Pool.Run (connectionWorld (fun _ => 1)
        (plainConnection.timeoutChecked (fun _ => []) fun _ => []))
        ⟨(.fresh 0 () : PlainConnection), []⟩ es ⟨s, ts⟩ ∧
      tenSecondTimer ∈ s.eventLoop.timers ∧ s.Pending () 0 ∧
      ¬ TimerHits (plainConnection.timeoutChecked (fun _ => []) fun _ => []) tenSecondTimer s := by
  obtain ⟨es, s, ts, hrun, htimer, hinst, hpending⟩ := tenSecondCall_reachable 1
  refine ⟨es, s, ts, hrun, htimer, hpending, fun hhits => ?_⟩
  have hids : Function.Injective fun _ : Unit => (1 : UInt32) := fun _ _ _ => rfl
  obtain ⟨hs, -⟩ := run_routed hids hrun
  exact (not_pending_of_timerHits hs htimer (by decide) hhits).1 hpending

end GayRpc
