import GayRpc.Client.Early
import GayRpc.Lib.Custody

/-!
# Calls that are overdue

A call whose timeout is over waits until somebody sweeps. Then it does not wait any longer: whatever
arrives for it in the meantime, and whatever runs at the same time, exactly one of its callbacks has been
run when all is over (`overdue_completed`). Either the sweep takes the call along, or a response or another
sweep has taken it before; and who takes it runs a callback of it.

The overdue call is in the custody of the client. No section of a call touches it, a response or a sweep
that takes it owes it one of its callbacks, and a sweep that is started once it is overdue is due to take it,
since it goes by a clock that has come past the end of the timeout. That not more than one of the callbacks
is run comes from `Client/AtMostOnce`.
-/

namespace GayRpc

variable {queue : PriorityQueue WaitResponseTimer WaitResponseTimer.le} {D H T Msg Ctx U : Type}

/-- The call `q` waits with a timeout that has ended at `e`. -/
def Host.Overdue (q : UInt64) (e : Int64) (h : Host queue D H T U) : Prop :=
  h.client.Deadline q e ∧ e ≤ h.clock

open Prog Pool

def overdueCall (q : UInt64) (e : Int64) : Custody (Host queue D H T U) (ClientEvent Msg) where
  inv := Host.Consistent
  bound := Host.Within
  safe := Host.Overdue q e
  settles event := event.runs = some q
  ends _ := False

variable {q x : UInt64} {e : Int64}

namespace BaseClient

variable {c c' : BaseClient queue D H T}

theorem Deadline.insertTimed (h : c.Deadline q e) (stub : ResponseStub D H) (t : TimeoutCallback T)
    (timer : WaitResponseTimer) : (c.insertTimed x stub t timer).Deadline q e := by
  refine ⟨Finmap.mem_insert.mpr (.inr h.1), ?_⟩
  have helems : queue.elems (c.insertTimed x stub t timer).mWaitResponseTimerQueue =
      timer ::ₘ queue.elems c.mWaitResponseTimerQueue := queue.elems_push _ _
  rw [helems]
  exact Multiset.mem_cons_of_mem h.2

theorem Deadline.forget (h : c.Deadline q e) (hx : x ≠ q) : (c.forget x).Deadline q e :=
  ⟨Finmap.mem_erase.mpr ⟨hx.symm, h.1⟩, h.2⟩

/-- A sweep that does not take the call along leaves it as it is. -/
theorem Sweeps.deadline {now : Int64} {callbacks : List (UInt64 × TimeoutCallback T)}
    {due : List WaitResponseTimer} (h : Sweeps now c c' callbacks due) (hq : q ∉ callbacks.map Prod.fst)
    (hdeadline : c.Deadline q e) : c'.Deadline q e := by
  obtain ⟨hmem, htimer⟩ := deadline_iff.mp hdeadline
  have hleft : q ∈ c'.mTimeoutHandleMap := by
    rw [← Finmap.lookup_isSome, (h.kept q hq).2, Finmap.lookup_isSome]
    exact hmem
  rw [deadline_iff, h.timers q hleft]
  exact ⟨hleft, htimer⟩

/-- A sweep that goes by a reading from `e` on takes the call along. -/
theorem Sweeps.mem_of_deadline {now : Int64} {callbacks : List (UInt64 × TimeoutCallback T)}
    {due : List WaitResponseTimer} (h : Sweeps now c c' callbacks due) (hdeadline : c.Deadline q e)
    (hle : e ≤ now) : q ∈ callbacks.map Prod.fst := by
  obtain ⟨t, ht⟩ := Finmap.mem_iff.mp hdeadline.1
  exact List.mem_map_of_mem (h.mem_iff.mpr ⟨ht, e, hdeadline, hle⟩)

end BaseClient

/-- No section of a call ends the waiting of another one. -/
theorem callSections_overdue : CallSections
    (fun h : Host queue D H T U => h.Consistent ∧ h.Within)
    (fun h h' => h'.Consistent ∧ (h.Overdue q e → h'.Overdue q e)) (fun _ : ClientEvent Msg => True) where
  request _ _ := trivial
  setUser _ hs := ⟨hs.1, id⟩
  read hs := ⟨hs.1, id⟩
  allocate hs := ⟨BaseClient.Consistent.allocate hs.1, id⟩
  insertTimed hstub ht hs :=
    ⟨BaseClient.Consistent.insertTimed hs.1 hstub ht _, fun h => ⟨h.1.insertTimed _ _ _, h.2⟩⟩
  insertUntimed hstub htimed hs := ⟨BaseClient.Consistent.insertUntimed hs.1 hstub htimed, id⟩

section minds

variable {code : ClientCode D H T Msg Ctx U} {due : Prop}

theorem minds_call (r : CallRequest D H T Msg) :
    Minds (overdueCall q e) False False (call code r : ClientProg queue D H T Msg U) :=
  .of_guarantees (callSections_overdue.call r)

theorem minds_runUser (p : Prog U Empty (CallRequest D H T Msg) (Except Exn Unit) (Except Exn Unit)) :
    Minds (overdueCall q e) False False (runUser code p : ClientProg queue D H T Msg U) :=
  .of_guarantees (callSections_overdue.runUser p)

theorem minds_timeout {t : TimeoutCallback T} (ht : t.owner = x) (hcall : t.callback.isSome) :
    Minds (overdueCall q e) False (x = q) (runTimeout code x t : ClientProg queue D H T Msg U) := by
  obtain ⟨callback, hcallback⟩ := Option.isSome_iff_exists.mp hcall
  rw [runTimeout, hcallback]
  refine .inr ⟨False, fun hx => .inl ?_, minds_runUser _⟩
  show some t.owner = some q
  rw [ht, hx]

theorem minds_runHandle {stub : ResponseStub D H} (hs : stub.owner = x) (hcall : stub.handle.isSome)
    (message : Msg) (error : Option RpcError) : Minds (overdueCall q e) False (x = q)
      (runHandle code x stub message error : ClientProg queue D H T Msg U) := by
  obtain ⟨handle, hhandle⟩ := Option.isSome_iff_exists.mp hcall
  rw [runHandle, hhandle]
  refine .inr ⟨False, fun hx => .inl ?_, minds_runUser _⟩
  show some stub.owner = some q
  rw [hs, hx]

/-- A response that parses gets to the handle. -/
theorem minds_runStub (hin : code.inbound = makeInterceptor []) {stub : ResponseStub D H}
    (hs : stub.owner = x) (hcall : stub.handle.isSome) {rpcMeta : RpcMeta} {data : StringView}
    {message : Msg}
    (hparse : parseMessage code.codec "response" stub.type rpcMeta.encoding data = .ok message)
    (context : Ctx) : Minds (overdueCall q e) False (x = q)
      (runStub code x stub rpcMeta data context : ClientProg queue D H T Msg U) := by
  have hthrough : (code.mInboundInterceptor : UnaryServerInterceptor (Host queue D H T U) _ _ _) =
      fun args => .ask args .ret := by
    funext args
    rw [ClientCode.mInboundInterceptor, hin]
    rfl
  have hnone : ∀ r : Except Exn Unit, Minds (overdueCall q e) False False
      (.ret r : ClientProg queue D H T Msg U) := fun _ => ⟨id, id⟩
  simp only [runStub, parseResponseWrapper, hparse, hthrough]
  refine Minds.bind (Minds.bind (Minds.bind (minds_runHandle hs hcall message _) fun r => ?_) fun _ => ?_)
    fun _ => hnone _
  · cases r with
    | ok _ => exact ⟨id, id⟩
    | error _ => exact ⟨id, id⟩
  · exact ⟨id, id⟩

/-- A response that answers runs a callback of the call that it has taken out of the maps. -/
theorem minds_afterSection (hin : code.inbound = makeInterceptor []) {rpcMeta : RpcMeta}
    {data : StringView} (context : Ctx) {h : Host queue D H T U} (hs : h.Consistent)
    (hne : h.client.NonEmpty) (hanswers : Answers code rpcMeta data h) :
    Minds (overdueCall q e) False (rpcMeta.responseInfo.sequenceId = q ∧
      rpcMeta.responseInfo.sequenceId ∈ h.client.mStubHandleMap)
      (afterSection code rpcMeta data context h) := by
  obtain ⟨-, t, ht, hcall, hp⟩ | ⟨hflag, stub, hstub, hp⟩ | ⟨r, hp, htimeout, hstub⟩ :=
    afterSection_cases code rpcMeta data context h
  · rw [hp]
    exact (minds_timeout (hs.timeout_owner ht) hcall).mono id And.left
  · rw [hp]
    obtain hnot | ⟨htrue, -⟩ | ⟨-, stub', message, hstub', hparse⟩ := hanswers
    · exact absurd (Finmap.mem_of_lookup_eq_some hstub) hnot
    · rw [hflag] at htrue
      cases htrue
    · obtain rfl := Option.some.inj (hstub.symm.trans hstub')
      exact (minds_runStub hin (hs.stub_owner hstub) (hne.stub hstub) hparse context).mono id And.left
  -- nobody is called, so nobody was waiting
  · rw [hp]
    refine ⟨id, fun ⟨_, hmem⟩ => ?_⟩
    obtain hnot | ⟨hflag, hmem⟩ | ⟨hflag, stub, message, hstub', -⟩ := hanswers
    · exact hnot hmem
    · obtain ⟨t, ht⟩ := Finmap.mem_iff.mp hmem
      have hsome := hne.timeout ht
      rw [htimeout hflag t ht] at hsome
      cases hsome
    · rw [hstub hflag] at hstub'
      cases hstub'

theorem minds_callbacks (hback : code.ComesBack) (callbacks : List (UInt64 × TimeoutCallback T))
    (h : ∀ p ∈ callbacks, p.2.owner = p.1 ∧ p.2.callback.isSome) :
    Minds (overdueCall q e) False (q ∈ callbacks.map Prod.fst)
      (runCallbacks code callbacks : ClientProg queue D H T Msg U) := by
  induction callbacks with
  | nil => exact ⟨id, List.not_mem_nil⟩
  | cons p callbacks ih =>
      obtain ⟨⟨howner, hcall⟩, hrest⟩ := List.forall_mem_cons.mp h
      have hfirst : Minds (overdueCall q e) False (p.1 = q)
          (runTimeout code p.1 p.2 : ClientProg queue D H T Msg U) := minds_timeout howner hcall
      have hall : Minds (overdueCall q e) False (p.1 = q ∨ q ∈ callbacks.map Prod.fst)
          (runCallbacks code (p :: callbacks) : ClientProg queue D H T Msg U) := by
        refine hfirst.bind_returns (returns_runTimeout hback p.1 hcall) fun r hr => ?_
        subst hr
        exact ih hrest
      apply hall.mono id
      rw [List.map_cons, List.mem_cons]
      exact Or.imp_left Eq.symm

/-- A sweep that is started when the call is overdue finds it, if it is still there. -/
theorem minds_sweep (hback : code.ComesBack) :
    Minds (overdueCall q e) due False (checkTimeout code : ClientProg queue D H T Msg U) := by
  intro h h' hs _ hf
  obtain rfl := Option.some.inj hf
  refine ⟨hs, due ∧ e ≤ h.clock, False, id, .inl, fun hd hsafe => .inl ⟨hd, hsafe.2⟩, ?_⟩
  -- the section goes by the clock that was read
  intro h₁ h₂ hs₁ hb₁ hf₁
  obtain rfl := Option.some.inj hf₁
  have hrounds := h₁.client.expire_rounds h.clock
  obtain ⟨due', hsweeps⟩ := h₁.client.expire_sweeps h.clock
  obtain ⟨hcons, howner⟩ := BaseClient.Consistent.rounds hs₁ hrounds
  refine ⟨hcons, False, q ∈ (h₁.client.expire h.clock).2.map Prod.fst, False.elim, ?_, ?_, ?_⟩
  · intro hsafe
    by_cases hmem : q ∈ (h₁.client.expire h.clock).2.map Prod.fst
    · exact .inr hmem
    · exact .inl ⟨hsweeps.deadline hmem hsafe.1, hsafe.2⟩
  · intro hd hsafe
    exact .inr (hsweeps.mem_of_deadline hsafe.1 hd.2)
  · apply minds_callbacks hback
    intro p hp
    exact ⟨howner p hp, (hb₁.2.rounds hrounds).2.1 p hp⟩

/-- Nothing that may be started takes the call away without running a callback of it. -/
theorem answeringWorld_minds (hin : code.inbound = makeInterceptor []) (hback : code.ComesBack) :
    (answeringWorld code : World (Host queue D H T U) _ _ _).Minds (overdueCall q e) where
  bound _ hb := hb
  env_inv h h' henv hs := by
    show h'.client.Consistent
    rw [henv.1]
    exact hs
  env_safe h h' henv hsafe := by
    refine ⟨?_, Int64.le_trans hsafe.2 henv.2⟩
    rw [henv.1]
    exact hsafe.1
  spawn p hp := by
    cases hp with
    | call r => exact minds_call r
    | processRpcResponse rpcMeta data context =>
        by_cases htype : rpcMeta.type = .response
        · rw [processRpcResponse_eq code rpcMeta data context htype]
          intro h h' hs hb hf
          obtain ⟨hanswers, hf⟩ := Option.ite_none_right_eq_some.mp hf
          obtain rfl := Option.some.inj hf
          refine ⟨BaseClient.Consistent.forget hs _, False, _, False.elim, fun hsafe => ?_, False.elim,
            minds_afterSection hin context hs hb.2 hanswers⟩
          -- a response to another call leaves this one overdue
          by_cases heq : rpcMeta.responseInfo.sequenceId = q
          · subst heq
            exact .inr ⟨rfl, hs.mem_stub hsafe.1.1⟩
          · exact .inl ⟨hsafe.1.forget heq, hsafe.2⟩
        · rw [processRpcResponse, if_pos htype]
          exact ⟨id, id⟩
    | checkTimeout => exact minds_sweep hback

theorem answeringWorld_free (hin : InvokesAtMostOnce code.inbound) :
    (answeringWorld code : World (Host queue D H T U) _ _ _).Free (unitBudget q) 0 := by
  have hfree := (clientWorld_free code hin : World.Free (S := Host queue D H T U) _ (unitBudget q) 0)
  refine ⟨fun _ hb => hb.1, hfree.env_inv, hfree.env_potential, fun p hp => ?_⟩
  cases hp with
  | call r => exact affords_call code r
  | processRpcResponse rpcMeta data context =>
      classical
      exact (affords_processRpcResponse code hin rpcMeta data context).onlyIf
  | checkTimeout => exact hfree.spawn _ .checkTimeout

end minds

/-- At some time of a run the call `q` is overdue, and a sweep is started. When all threads are done, exactly
one callback of the call has been run since the client was made, and the call waits no more. -/
theorem overdue_completed {code : ClientCode D H T Msg Ctx U} (hin : code.inbound = makeInterceptor [])
    (hback : code.ComesBack) {clock : Int64} {user : U} {es es' : List (ClientEvent Msg)}
    {b d : Pool (Host queue D H T U) (ClientEvent Msg) Empty (Except Exn Unit)}
    (hrun : Run (answeringWorld code) ⟨Host.fresh clock user, []⟩ es b)
    (hoverdue : b.state.Overdue q e)
    (hrest : Run (answeringWorld code) ⟨b.state, checkTimeout code :: b.threads⟩ es' d)
    (hd : ∀ p ∈ d.threads, p.Done) :
    ((es ++ es').filter fun event => event.runs = some q).length = 1 ∧ ¬ d.state.client.Waits q := by
  have hminds : (answeringWorld code : World (Host queue D H T U) _ _ _).Minds (overdueCall q e) :=
    answeringWorld_minds hin hback
  -- a callback is run, since the sweep is due to take the call
  have hran : ∃ event ∈ es', event.runs = some q := by
    have hfresh : Minded (overdueCall q e) False False (⟨Host.fresh clock user, []⟩ :
        Pool (Host queue D H T U) (ClientEvent Msg) Empty (Except Exn Unit)) := by
      refine ⟨.fresh, ⟨Nat.two_pow_pos 64, fun h => ?_, fun h => ?_⟩, id, id⟩
      · simp [Host.fresh] at h
      · simp [Host.fresh] at h
    obtain ⟨_, _, hf⟩ | hb := hrun.minded hminds hfresh
    · exact hf.elim
    have hkept : Kept (overdueCall q e) True ⟨b.state, checkTimeout code :: b.threads⟩ :=
      ⟨_, _, ⟨hb.inv, hb.bound, .cons (minds_sweep hback) hb.threads⟩, .inr ⟨hoverdue, .inl⟩⟩
    obtain ⟨event, hevent, hf | hruns⟩ := hrest.settled hminds hkept hd
    · exact hf.elim
    · exact ⟨event, hevent, hruns⟩
  -- and it costs the one unit of the call
  have honce : InvokesAtMostOnce code.inbound := by
    rw [hin]
    exact fun args => ⟨0, Nat.le_refl _, fun _ => trivial⟩
  have hwhole : Run (answeringWorld code) ⟨Host.fresh clock user, []⟩ (es ++ ([] ++ es')) d :=
    hrun.trans (.head hrest (.spawn b.threads .checkTimeout))
  have hcost : ∀ event : ClientEvent Msg, decide (event.runs = some q) →
      1 ≤ (unitBudget q : Budget (Host queue D H T U) _).cost event := by
    intro event hevent
    simp [unitBudget, of_decide_eq_true hevent]
  have hle := hwhole.mul_length_filter_add_potential_le (answeringWorld_free honce)
    (worth_fresh q clock user) _ 1 hcost
  rw [List.nil_append, Nat.one_mul] at hle
  change _ + d.state.client.unit q ≤ 1 at hle
  have hpos : 0 < ((es ++ es').filter fun event => decide (event.runs = some q)).length := by
    obtain ⟨event, hevent, hruns⟩ := hran
    apply List.length_pos_of_mem
    exact List.mem_filter.mpr ⟨List.mem_append_right _ hevent, decide_eq_true hruns⟩
  refine ⟨by omega, fun hwaits => ?_⟩
  rw [BaseClient.unit, if_pos hwaits] at hle
  omega

/-- After ten seconds the call with a timeout of ten seconds is overdue, and a sweep completes it. -/
theorem overdue_completed_example : ∃ es b es' d,
    Run (answeringWorld plainCode) ⟨(Host.fresh 0 () : PlainHost), []⟩ es b ∧
      b.state.Overdue 0 10000000000 ∧
      Run (answeringWorld plainCode) ⟨b.state, checkTimeout plainCode :: b.threads⟩ es' d ∧
      ((es ++ es').filter fun event => event.runs = some 0).length = 1 ∧ ¬ d.state.client.Waits 0 := by
  have hwaiting : ∀ h : PlainHost, h.client = waitingClient → h.Within := by
    intro h hh
    rw [Host.Within, hh]
    exact ⟨by decide, waitingClient_nonEmpty⟩
  have hnone : ∀ h : PlainHost, h.client = BaseClient.allocate {} → h.Within := by
    intro h hh
    rw [Host.Within, hh]
    exact ⟨by decide, fun hx => by simp [BaseClient.allocate] at hx,
      fun hx => by simp [BaseClient.allocate] at hx⟩
  have h1 : Run (answeringWorld plainCode) ⟨(Host.fresh 0 () : PlainHost), []⟩ []
      ⟨_, [call plainCode plainTimedCall]⟩ := .single (.spawn [] (.call plainTimedCall))
  have h2 := h1.tail (.act [] [] rfl (hnone _ rfl))
  have h3 := h2.tail (.act [] [] rfl (hnone _ rfl))
  have h4 := h3.tail (.act [] [] rfl (hwaiting _ rfl))
  have h5 := h4.tail (.emit [] [] _ (hwaiting _ rfl))
  -- ten seconds later
  let later : PlainHost := { client := waitingClient, clock := 10000000000, user := () }
  have h6 : Run (answeringWorld plainCode) _ _ ⟨later, _⟩ :=
    h5.tail (.env _ ⟨rfl, by decide⟩ (hwaiting later rfl))
  have hoverdue : later.Overdue 0 10000000000 :=
    ⟨⟨Finmap.mem_insert.mpr (.inl rfl), Multiset.mem_coe.mpr (.head _)⟩, Int64.le_refl _⟩
  have hswept : (later.client.expire 10000000000).2 = [(0, { owner := 0, callback := some () })] :=
    BaseClient.expire_insertTimed 0 _ _ (Int64.le_refl _)
  have hafter : (later.mapClient fun c => (c.expire 10000000000).1).Within := by
    have hrounds := later.client.expire_rounds 10000000000
    refine ⟨?_, (waitingClient_nonEmpty.rounds hrounds).1⟩
    show (later.client.expire 10000000000).1.mSequenceID < 2 ^ 64
    rw [hrounds.mSequenceID]
    decide
  have h7 : Run (answeringWorld plainCode) ⟨later, [checkTimeout plainCode, .ret (.ok ())]⟩ [] ⟨later, _⟩ :=
    .single (.act [] _ rfl (hwaiting later rfl))
  have h8 : Run (answeringWorld plainCode) _ _ ⟨later.mapClient fun c => (c.expire 10000000000).1,
      [runCallbacks plainCode (later.client.expire 10000000000).2, .ret (.ok ())]⟩ :=
    h7.tail (.act [] _ rfl hafter)
  rw [hswept] at h8
  have h9 := h8.tail (.emit [] _ _ hafter)
  refine ⟨_, _, _, _, h6, hoverdue, h9, overdue_completed rfl plainCode_comesBack h6 hoverdue h9 ?_⟩
  -- no thread of the last pool has anything left to do
  rintro p (_ | ⟨_, _ | ⟨_, hp⟩⟩)
  · trivial
  · trivial
  · cases hp

end GayRpc
