import GayRpc.Client.Pending

/-!
# Accounts of a client

A budget in which every sequence id is money. `right x` is what the counter pays out to the call that
draws the id `x`, and what this call pays for entering the maps; `price x` is what comes back to whoever
takes the call out of the maps again, who may run one of its callbacks for it. If the sections of a client
keep such accounts, all its operations can afford what they do, whatever runs beside them.

So a statement about the events of a client needs no more than a table of prices and a lemma for each
section (`Accounts`); the operations, with all their branches and with the code of the user in them, are
gone through here once. A call is taken apart at its sections (`call`), a stub at the inbound interceptor,
whose calls of the continuation are what costs something, and the callbacks of a sweep are paid for one by
one.
-/

namespace GayRpc

variable {queue : PriorityQueue WaitResponseTimer WaitResponseTimer.le} {D H T Msg Ctx U : Type}

namespace BaseClient

variable (c : BaseClient queue D H T) (q : UInt64)

/-- The call `q` is in one of the maps. -/
def Waits : Prop := q ∈ c.mStubHandleMap ∨ q ∈ c.mTimeoutHandleMap

instance : Decidable (c.Waits q) := inferInstanceAs (Decidable (_ ∨ _))

/-- Whoever draws an id has it from the counter. -/
theorem drawn_allocate (h : c.allocate.mSequenceID < 2 ^ 64) :
    (if c.nextID = q then 1 else 0) + (if c.allocate.mSequenceID ≤ q.toNat then 1 else 0) ≤
      if c.mSequenceID ≤ q.toNat then 1 else 0 := by
  have hlt : c.mSequenceID < 2 ^ 64 := Nat.lt_of_succ_lt h
  have hid := c.toNat_nextID hlt
  have hcount : c.allocate.mSequenceID = c.mSequenceID + 1 := rfl
  rw [hcount]
  split_ifs with heq <;> first | omega | (subst heq; omega)

end BaseClient

/-- The interceptor calls its continuation at most once, on whichever thread. -/
def InvokesAtMostOnce (x : UnaryServerInterceptor U Empty Msg Ctx) : Prop :=
  ∀ args, Prog.Affords Budget.questions 1 1 (x args)

/-- The sections of a client keep the budget. -/
structure Accounts (B : Budget (Host queue D H T U) (ClientEvent Msg)) (right price : UInt64 → ℕ) :
    Prop where
  consistent : ∀ {h}, B.inv h → h.client.Consistent
  inv_setUser : ∀ {h} u, B.inv h → B.inv (h.setUser u)
  potential_setUser : ∀ h u, B.potential (Host.setUser h u) = B.potential h
  /-- a call that waits for nothing has no other use for its right -/
  request : ∀ rpcMeta message, B.cost (.request rpcMeta message) ≤
    if rpcMeta.requestInfo.expectResponse then 0 else right rpcMeta.requestInfo.sequenceId
  handle : ∀ x message error, B.cost (.handle x x message error) ≤ price x
  timeout : ∀ x, B.cost (.timeout x x) ≤ price x
  allocate : ∀ {h}, B.inv h → B.bound (h.mapClient .allocate) → B.inv (h.mapClient .allocate) ∧
    right h.client.nextID + B.potential (h.mapClient .allocate) ≤ B.potential h
  insertTimed : ∀ {h x} {stub : ResponseStub D H} {t : TimeoutCallback T} {timer : WaitResponseTimer},
    stub.owner = x → t.owner = x → timer.mSeqID = x → B.inv h →
    B.inv (h.mapClient (.insertTimed x stub t timer)) ∧
      B.potential (h.mapClient (.insertTimed x stub t timer)) ≤ right x + B.potential h
  insertUntimed : ∀ {h x} {stub : ResponseStub D H}, stub.owner = x → stub.timed = false → B.inv h →
    B.inv (h.mapClient (.insertUntimed x stub)) ∧
      B.potential (h.mapClient (.insertUntimed x stub)) ≤ right x + B.potential h
  forget : ∀ {h} x, B.inv h → B.inv (h.mapClient (.forget x)) ∧
    (if h.client.Waits x then price x else 0) + B.potential (h.mapClient (.forget x)) ≤ B.potential h
  expire : ∀ {h} now, B.inv h → B.inv (h.mapClient fun c => (c.expire now).1) ∧
    ((h.client.expire now).2.map fun p => price p.1).sum +
      B.potential (h.mapClient fun c => (c.expire now).1) ≤ B.potential h

open Prog

namespace Accounts

variable {B : Budget (Host queue D H T U) (ClientEvent Msg)} {right price : UInt64 → ℕ} {c n : ℕ}
  (hB : Accounts B right price) (code : ClientCode D H T Msg Ctx U)

include hB

theorem lift {Q A R : Type} {p : Prog U Empty Q A R} (h : Affords Budget.questions c n p) :
    Affords B c n (p.lift Host.user Host.setUser) :=
  h.lift (fun _ u hinv => hB.inv_setUser u hinv) hB.potential_setUser

omit hB in
/-- A section on the client pays for what it takes out of the client. -/
theorem onClient {Q A R : Type} {f : BaseClient queue D H T → BaseClient queue D H T}
    {k : Host queue D H T U → Prog (Host queue D H T U) (ClientEvent Msg) Q A R}
    (m : Host queue D H T U → ℕ)
    (hf : ∀ {h}, B.inv h → B.bound (h.mapClient f) → B.inv (h.mapClient f) ∧
      m h + B.potential (h.mapClient f) ≤ n + B.potential h)
    (hk : ∀ {h}, B.inv h → Affords B c (m h) (k h)) : Affords B c n (.act (Host.onClient f) k) := by
  intro h h' hs hs' hstep
  obtain rfl : h.mapClient f = h' := Option.some.inj hstep
  obtain ⟨hinv, hpot⟩ := hf hs hs'
  exact ⟨hinv, m h, hpot, hk hs⟩

/-- The call hands its request to the interceptors. -/
theorem send {rpcMeta : RpcMeta} {m : Msg} (hcost : B.cost (.request rpcMeta m) ≤ n) :
    Affords B 0 n (sendRequest code rpcMeta m : ClientProg queue D H T Msg U) := by
  refine ⟨0, hcost, ?_⟩
  exact (hB.lift (Affords.free _)).bind (m := 0) fun _ => trivial

/-- What a call does after its id has been drawn, it does with the right to that id. -/
theorem call (r : CallRequest D H T Msg) : Affords B 0 0 (GayRpc.call code r) := by
  refine onClient (fun h => right h.client.nextID) (fun hs hb => ?_) fun {h} _ => ?_
  · rw [Nat.zero_add]
    exact hB.allocate hs hb
  · cases r.timed with
    | some timed =>
        intro h₁ h₂ hs₁ _ hf
        obtain rfl := Option.some.inj hf
        refine ⟨hs₁, _, Nat.le_refl _, ?_⟩
        refine onClient (fun _ => 0) (fun hs _ => ?_) fun _ => hB.send code (hB.request _ _)
        rw [Nat.zero_add]
        exact hB.insertTimed (by rfl) (by rfl) (by rfl) hs
    | none =>
        -- without a timeout the id is paid for by its maps only if a handle goes into them
        have hcost := hB.request
          (makeRequestRpcMeta h.client.nextID r.serviceID r.msgID .binary r.handle.isSome) r.request
        change _ ≤ if r.handle.isSome then 0 else right h.client.nextID at hcost
        dsimp only
        by_cases hexpect : r.handle.isSome = true
        · rw [if_pos hexpect] at hcost ⊢
          refine onClient (fun _ => 0) (fun hs _ => ?_) fun _ => hB.send code hcost
          rw [Nat.zero_add]
          exact hB.insertUntimed (by rfl) (by rfl) hs
        · rw [if_neg hexpect] at hcost ⊢
          exact hB.send code hcost

theorem runUser (p : Prog U Empty (CallRequest D H T Msg) (Except Exn Unit) (Except Exn Unit)) :
    Affords B 0 0 (GayRpc.runUser code p) :=
  (hB.lift (Affords.free p)).plug fun _ r => hB.call code r

theorem runTimeout {x : UInt64} {t : TimeoutCallback T} (ht : t.owner = x) :
    Affords B 0 (price x) (GayRpc.runTimeout code x t) := by
  unfold GayRpc.runTimeout
  cases t.callback with
  | none => trivial
  | some callback =>
      rw [ht]
      exact ⟨0, hB.timeout x, hB.runUser code _⟩

theorem runHandle {x : UInt64} {stub : ResponseStub D H} (hs : stub.owner = x) (message : Msg)
    (error : Option RpcError) : Affords B 0 (price x) (GayRpc.runHandle code x stub message error) := by
  unfold GayRpc.runHandle
  cases stub.handle with
  | none => trivial
  | some handle =>
      rw [hs]
      exact ⟨0, hB.handle x message error, hB.runUser code _⟩

/-- A stub runs its handle as often as the inbound interceptor calls its continuation. -/
theorem runStub (hin : ∀ x, price x ≠ 0 → InvokesAtMostOnce code.inbound) {x : UInt64}
    {stub : ResponseStub D H} (hs : stub.owner = x) (rpcMeta : RpcMeta) (data : StringView)
    (context : Ctx) : Affords B 0 (price x) (GayRpc.runStub code x stub rpcMeta data context) := by
  -- the chain may come to the handle at most once, so its questions are worth one handle
  have hasks : ∀ args, Affords Budget.questions (price x) (price x) (code.inbound args) := by
    intro args
    by_cases hx : price x = 0
    · rw [hx]
      exact Affords.free _
    · simpa using (hin x hx args).scale (price x)
  have hwrap : Affords B 0 (price x) (parseResponseWrapper code.codec stub.type
      (GayRpc.runHandle code x stub) rpcMeta data code.mInboundInterceptor context) := by
    unfold parseResponseWrapper
    cases parseMessage code.codec "response" stub.type rpcMeta.encoding data with
    | error e => trivial
    | ok response =>
        refine (hB.lift (hasks _)).plug fun _ args => ?_
        refine Affords.bind (m := 0) (hB.runHandle code hs _ _) fun r => ?_
        cases r with
        | ok _ => trivial
        | error _ => trivial
  exact hwrap.bind (m := 0) fun _ => trivial

theorem afterSection (hin : ∀ x, price x ≠ 0 → InvokesAtMostOnce code.inbound) (rpcMeta : RpcMeta)
    (data : StringView) (context : Ctx) {h : Host queue D H T U} (hs : h.client.Consistent) :
    Affords B 0 (if h.client.Waits rpcMeta.responseInfo.sequenceId then
        price rpcMeta.responseInfo.sequenceId else 0)
      (GayRpc.afterSection code rpcMeta data context h) := by
  obtain ⟨-, t, ht, -, hp⟩ | ⟨-, stub, hstub, hp⟩ | ⟨r, hp, -⟩ :=
    afterSection_cases code rpcMeta data context h
  · rw [hp, if_pos (.inr (Finmap.mem_of_lookup_eq_some ht))]
    exact hB.runTimeout code (hs.timeout_owner ht)
  · rw [hp, if_pos (.inl (Finmap.mem_of_lookup_eq_some hstub))]
    exact hB.runStub code hin (hs.stub_owner hstub) rpcMeta data context
  · rw [hp]
    trivial

theorem processRpcResponse (hin : ∀ x, price x ≠ 0 → InvokesAtMostOnce code.inbound)
    (rpcMeta : RpcMeta) (data : StringView) (context : Ctx) :
    Affords B 0 0 (GayRpc.processRpcResponse code rpcMeta data context) := by
  by_cases htype : rpcMeta.type = .response
  · rw [processRpcResponse_eq code rpcMeta data context htype]
    refine onClient (fun h => if h.client.Waits rpcMeta.responseInfo.sequenceId then
        price rpcMeta.responseInfo.sequenceId else 0) (fun hs _ => ?_)
      fun hs => hB.afterSection code hin rpcMeta data context (hB.consistent hs)
    rw [Nat.zero_add]
    exact hB.forget _ hs
  · rw [GayRpc.processRpcResponse, if_pos htype]
    trivial

theorem runCallbacks (callbacks : List (UInt64 × TimeoutCallback T))
    (h : ∀ p ∈ callbacks, p.2.owner = p.1) :
    Affords B 0 (callbacks.map fun p => price p.1).sum (GayRpc.runCallbacks code callbacks) := by
  induction callbacks with
  | nil => trivial
  | cons p callbacks ih =>
      obtain ⟨hp, hps⟩ := List.forall_mem_cons.mp h
      rw [List.map_cons, List.sum_cons]
      refine Affords.bind (hB.runTimeout code hp) fun r => ?_
      cases r with
      | ok _ => exact ih hps
      | error _ => trivial

theorem checkTimeout : Affords B 0 0 (GayRpc.checkTimeout code) := by
  intro h h' hs _ hf
  obtain rfl := Option.some.inj hf
  refine ⟨hs, 0, Nat.le_refl _, ?_⟩
  refine onClient (fun h₁ => ((h₁.client.expire h.clock).2.map fun p => price p.1).sum)
    (fun hs₁ _ => ?_) fun hs₁ =>
      hB.runCallbacks code _ ((hB.consistent hs₁).rounds (BaseClient.expire_rounds _ _)).2
  rw [Nat.zero_add]
  exact hB.expire h.clock hs₁

/-- In the surroundings of a client everything pays for itself. -/
theorem clientWorld (hin : ∀ x, price x ≠ 0 → InvokesAtMostOnce code.inbound)
    (hbound : ∀ h : Host queue D H T U, h.client.mSequenceID < 2 ^ 64 → B.bound h)
    (hinv : ∀ {h h' : Host queue D H T U}, h'.client = h.client → B.inv h → B.inv h')
    (hpot : ∀ {h h' : Host queue D H T U}, h'.client = h.client → B.potential h' = B.potential h) :
    (GayRpc.clientWorld code : World (Host queue D H T U) _ _ _).Free B 0 where
  bound := hbound
  env_inv _ _ henv := hinv henv.1
  env_potential _ _ henv _ := (hpot henv.1).le
  spawn p hp := by
    cases hp with
    | call r => exact hB.call code r
    | processRpcResponse rpcMeta data context => exact hB.processRpcResponse code hin rpcMeta data context
    | checkTimeout => exact hB.checkTimeout code

end Accounts

end GayRpc
