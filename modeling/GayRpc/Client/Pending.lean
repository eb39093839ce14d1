import GayRpc.Core.Client
import GayRpc.Lib.Finmap

/-!
# The pending calls of a client

What the sections of `BaseClient` do to the two maps, said once for all proofs: each of the three
ways out of the maps comes down to `forget`, and each section keeps `Consistent`.

Of `takeExpired`, which has fuel, `Rounds` is the relation without it: a round takes the head of the queue
with its call along, or skips it because its call does not wait any more, and the loop stops at the first
timer that is not due. Proofs about sweeps are inductions on the rounds.

`afterSection_cases` says what a response may lead to, once its section is over: to the timeout callback
of its call, to the stub of it, or to an exception.
-/

namespace GayRpc

namespace BaseClient

variable {queue : PriorityQueue WaitResponseTimer WaitResponseTimer.le} {D H T : Type}
  (c : BaseClient queue D H T) (q : UInt64)

theorem takeTimeout_eq_forget : c.takeTimeout q = c.forget q := by
  unfold takeTimeout forget
  cases h : c.mTimeoutHandleMap.lookup q with
  | some t => simp only [h]
  | none => simp only [h, Finmap.erase_of_lookup_eq_none h]

theorem takeResponse_eq_forget : c.takeResponse q = c.forget q := by
  unfold takeResponse forget
  cases h : c.mStubHandleMap.lookup q with
  | some stub => simp only [h]
  | none => simp only [h, Finmap.erase_of_lookup_eq_none h]

@[simp] theorem forget_mSequenceID : (c.forget q).mSequenceID = c.mSequenceID := rfl

@[simp] theorem popTimer_mSequenceID : c.popTimer.mSequenceID = c.mSequenceID := rfl

@[simp] theorem popTimer_mStubHandleMap : c.popTimer.mStubHandleMap = c.mStubHandleMap := rfl

@[simp] theorem popTimer_mTimeoutHandleMap : c.popTimer.mTimeoutHandleMap = c.mTimeoutHandleMap := rfl

theorem toNat_nextID (h : c.mSequenceID < 2 ^ 64) : c.nextID.toNat = c.mSequenceID := by
  simpa [nextID] using h

/-- The two maps agree with each other and with the calls they were filled by. -/
structure Consistent : Prop where
  stub_owner : ∀ {q stub}, c.mStubHandleMap.lookup q = some stub → stub.owner = q
  timeout_owner : ∀ {q t}, c.mTimeoutHandleMap.lookup q = some t → t.owner = q
  mem_stub : ∀ {q}, q ∈ c.mTimeoutHandleMap → q ∈ c.mStubHandleMap
  mem_timeout : ∀ {q stub}, c.mStubHandleMap.lookup q = some stub → stub.timed → q ∈ c.mTimeoutHandleMap

variable {c q}

namespace Consistent

theorem fresh : ({} : BaseClient queue D H T).Consistent where
  stub_owner h := by simp at h
  timeout_owner h := by simp at h
  mem_stub h := absurd h Finmap.notMem_empty
  mem_timeout h := by simp at h

theorem allocate (h : c.Consistent) : c.allocate.Consistent :=
  ⟨h.stub_owner, h.timeout_owner, h.mem_stub, h.mem_timeout⟩

theorem popTimer (h : c.Consistent) : c.popTimer.Consistent :=
  ⟨h.stub_owner, h.timeout_owner, h.mem_stub, h.mem_timeout⟩

theorem insertTimed (h : c.Consistent) {stub : ResponseStub D H} {t : TimeoutCallback T}
    (hs : stub.owner = q) (ht : t.owner = q) (timer : WaitResponseTimer) :
    (c.insertTimed q stub t timer).Consistent where
  stub_owner hx := by
    obtain ⟨rfl, rfl⟩ | ⟨-, hx⟩ := Finmap.of_lookup_insert hx
    · exact hs
    · exact h.stub_owner hx
  timeout_owner hx := by
    obtain ⟨rfl, rfl⟩ | ⟨-, hx⟩ := Finmap.of_lookup_insert hx
    · exact ht
    · exact h.timeout_owner hx
  mem_stub hx := Finmap.mem_insert.mpr ((Finmap.mem_insert.mp hx).imp_right h.mem_stub)
  mem_timeout hx htimed := by
    obtain ⟨rfl, -⟩ | ⟨-, hx⟩ := Finmap.of_lookup_insert hx
    · exact Finmap.mem_insert.mpr (.inl rfl)
    · exact Finmap.mem_insert.mpr (.inr (h.mem_timeout hx htimed))

theorem insertUntimed (h : c.Consistent) {stub : ResponseStub D H} (hs : stub.owner = q)
    (ht : stub.timed = false) : (c.insertUntimed q stub).Consistent where
  stub_owner hx := by
    obtain ⟨rfl, rfl⟩ | ⟨-, hx⟩ := Finmap.of_lookup_insert hx
    · exact hs
    · exact h.stub_owner hx
  timeout_owner hx := h.timeout_owner hx
  mem_stub hx := Finmap.mem_insert.mpr (.inr (h.mem_stub hx))
  mem_timeout hx htimed := by
    obtain ⟨-, rfl⟩ | ⟨-, hx⟩ := Finmap.of_lookup_insert hx
    · rw [ht] at htimed
      cases htimed
    · exact h.mem_timeout hx htimed

theorem forget (h : c.Consistent) (q : UInt64) : (c.forget q).Consistent where
  stub_owner hx := h.stub_owner (Finmap.of_lookup_erase hx).2
  timeout_owner hx := h.timeout_owner (Finmap.of_lookup_erase hx).2
  mem_stub hx :=
    Finmap.mem_erase.mpr ((Finmap.mem_erase.mp hx).imp_right h.mem_stub)
  mem_timeout hx htimed := by
    obtain ⟨hne, hx⟩ := Finmap.of_lookup_erase hx
    exact Finmap.mem_erase.mpr ⟨hne, h.mem_timeout hx htimed⟩

end Consistent

/-! ## What is due -/

/-- The rounds that the loop of `checkTimeout` makes at `now`: they lead from `c` to `c'` and take
`callbacks` along. -/
inductive Rounds (now : Int64) : BaseClient queue D H T → BaseClient queue D H T →
    List (UInt64 × TimeoutCallback T) → Prop where
  /-- no timer is due -/
  | stop {c : BaseClient queue D H T}
      (hlater : ∀ timer ∈ queue.elems c.mWaitResponseTimerQueue, now < timer.mEndTime) :
      Rounds now c c []
  /-- the head is due, and its call waits -/
  | take {c c' : BaseClient queue D H T} {head t callbacks}
      (htop : queue.top c.mWaitResponseTimerQueue = some head)
      (hdue : head.mEndTime ≤ now) (ht : c.mTimeoutHandleMap.lookup head.mSeqID = some t)
      (h : Rounds now (c.forget head.mSeqID).popTimer c' callbacks) :
      Rounds now c c' ((head.mSeqID, t) :: callbacks)
  /-- the head is due, but its call does not wait any more -/
  | skip {c c' : BaseClient queue D H T} {head callbacks}
      (htop : queue.top c.mWaitResponseTimerQueue = some head)
      (hdue : head.mEndTime ≤ now) (hnone : c.mTimeoutHandleMap.lookup head.mSeqID = none)
      (h : Rounds now c.popTimer c' callbacks) : Rounds now c c' callbacks

/-- With fuel for every timer, the loop goes on until nothing is due. -/
theorem takeExpired_rounds (now : Int64) (fuel : ℕ) (c : BaseClient queue D H T)
    (hfuel : (queue.elems c.mWaitResponseTimerQueue).card ≤ fuel) :
    Rounds now c (c.takeExpired now fuel).1 (c.takeExpired now fuel).2 := by
  induction fuel generalizing c with
  | zero =>
      have hempty := Multiset.card_eq_zero.mp (Nat.le_zero.mp hfuel)
      exact .stop (by simp [hempty])
  | succ fuel ih =>
      rw [takeExpired]
      cases htop : queue.top c.mWaitResponseTimerQueue with
      | none =>
          have hempty := (queue.top_eq_none _).mp htop
          exact .stop (by simp [hempty])
      | some head =>
          have hcard := congrArg Multiset.card (queue.elems_pop htop)
          rw [Multiset.card_cons] at hcard
          have hleft : (queue.elems c.popTimer.mWaitResponseTimerQueue).card ≤ fuel := by
            show (queue.elems (queue.pop c.mWaitResponseTimerQueue)).card ≤ fuel
            omega
          dsimp only
          split
          · next hlt =>
              -- the head is the earliest of all
              exact .stop fun timer ht => Int64.lt_of_lt_of_le hlt (queue.le_top htop timer ht)
          · next hdue =>
              cases ht : c.mTimeoutHandleMap.lookup head.mSeqID with
              | some t => exact .take htop (Int64.not_lt.mp hdue) ht (ih _ hleft)
              | none => exact .skip htop (Int64.not_lt.mp hdue) ht (ih _ hleft)

theorem expire_rounds (now : Int64) (c : BaseClient queue D H T) :
    Rounds now c (c.expire now).1 (c.expire now).2 :=
  takeExpired_rounds now _ c (Nat.le_refl _)

variable {c' : BaseClient queue D H T} {now : Int64} {callbacks : List (UInt64 × TimeoutCallback T)}

theorem Rounds.mSequenceID (h : Rounds now c c' callbacks) : c'.mSequenceID = c.mSequenceID := by
  induction h with
  | stop hlater => rfl
  | take htop hdue ht _ ih => exact ih
  | skip htop hdue hnone _ ih => exact ih

/-- The callbacks that are taken along are those of the calls. -/
theorem Rounds.lookup (h : Rounds now c c' callbacks) :
    ∀ p ∈ callbacks, c.mTimeoutHandleMap.lookup p.1 = some p.2 := by
  induction h with
  | stop hlater => simp
  | take htop hdue ht _ ih =>
      intro p hp
      rcases List.mem_cons.mp hp with rfl | hp
      · exact ht
      · exact (Finmap.of_lookup_erase (ih p hp)).2
  | skip htop hdue hnone _ ih => exact ih

theorem Consistent.rounds (hc : c.Consistent) (h : Rounds now c c' callbacks) :
    c'.Consistent ∧ ∀ p ∈ callbacks, p.2.owner = p.1 := by
  induction h with
  | stop hlater => exact ⟨hc, by simp⟩
  | take htop hdue ht _ ih =>
      obtain ⟨hcons, hall⟩ := ih (hc.forget _).popTimer
      exact ⟨hcons, List.forall_mem_cons.mpr ⟨hc.timeout_owner ht, hall⟩⟩
  | skip htop hdue hnone _ ih => exact ih hc.popTimer

end BaseClient

variable {queue : PriorityQueue WaitResponseTimer WaitResponseTimer.le} {D H T Msg Ctx U : Type}

def sendRequest (code : ClientCode D H T Msg Ctx U) (rpcMeta : RpcMeta) (m : Msg) :
    ClientProg queue D H T Msg U :=
  .emit (.request rpcMeta m)
    (((code.outbound.call emptyHandler
      { rpcMeta := rpcMeta, message := m, context := code.emptyContext }).lift
        Host.user Host.setUser).bind fun reply => .ret reply.thrown)

/-! ## Responses -/

def Host.mapClient (f : BaseClient queue D H T → BaseClient queue D H T) (h : Host queue D H T U) :
    Host queue D H T U :=
  { h with client := f h.client }

section processRpcResponse

variable (code : ClientCode D H T Msg Ctx U) (rpcMeta : RpcMeta) (data : StringView) (context : Ctx)

/-- What `processRpcResponse` does after its section, which has found `h`. -/
def afterSection (h : Host queue D H T U) : ClientProg queue D H T Msg U :=
  let sequenceID := rpcMeta.responseInfo.sequenceId
  if rpcMeta.responseInfo.timeout then
    match h.client.mTimeoutHandleMap.lookup sequenceID with
    | some timeoutHandler =>
      if timeoutHandler.callback.isSome then runTimeout code sequenceID timeoutHandler
      else .ret (.ok ())
    | none => .ret (.ok ())
  else
    match h.client.mStubHandleMap.lookup sequenceID with
    | some stub => runStub code sequenceID stub rpcMeta data context
    | none => .ret (.error (.runtimeError ("not found response seq id:" ++ toString sequenceID)))

/-- Whatever the response, its id is in neither map after the section. -/
theorem processRpcResponse_eq (h : rpcMeta.type = .response) :
    (processRpcResponse code rpcMeta data context : ClientProg queue D H T Msg U) =
      .act (Host.onClient (BaseClient.forget rpcMeta.responseInfo.sequenceId))
        (afterSection code rpcMeta data context) := by
  have htimeout : (BaseClient.takeTimeout rpcMeta.responseInfo.sequenceId :
      BaseClient queue D H T → _) = BaseClient.forget rpcMeta.responseInfo.sequenceId :=
    funext fun c => c.takeTimeout_eq_forget _
  have hresponse : (BaseClient.takeResponse rpcMeta.responseInfo.sequenceId :
      BaseClient queue D H T → _) = BaseClient.forget rpcMeta.responseInfo.sequenceId :=
    funext fun c => c.takeResponse_eq_forget _
  have htype : ¬rpcMeta.type ≠ .response := not_not_intro h
  apply (if_neg htype).trans
  by_cases hflag : rpcMeta.responseInfo.timeout = true
  · apply (if_pos hflag).trans
    rw [htimeout]
    exact congrArg _ (funext fun _ => (if_pos hflag).symm)
  · apply (if_neg hflag).trans
    rw [hresponse]
    exact congrArg _ (funext fun _ => (if_neg hflag).symm)

/-- Everything a response may lead to once its section is over. -/
theorem afterSection_cases (h : Host queue D H T U) :
    (rpcMeta.responseInfo.timeout = true ∧
      ∃ t, h.client.mTimeoutHandleMap.lookup rpcMeta.responseInfo.sequenceId = some t ∧
        t.callback.isSome ∧ afterSection code rpcMeta data context h =
          runTimeout code rpcMeta.responseInfo.sequenceId t) ∨
    (rpcMeta.responseInfo.timeout = false ∧
      ∃ stub, h.client.mStubHandleMap.lookup rpcMeta.responseInfo.sequenceId = some stub ∧
        afterSection code rpcMeta data context h =
          runStub code rpcMeta.responseInfo.sequenceId stub rpcMeta data context) ∨
    (∃ r, afterSection code rpcMeta data context h = .ret r ∧
      (rpcMeta.responseInfo.timeout = true → ∀ t,
        h.client.mTimeoutHandleMap.lookup rpcMeta.responseInfo.sequenceId = some t →
          t.callback = none) ∧
      (rpcMeta.responseInfo.timeout = false →
        h.client.mStubHandleMap.lookup rpcMeta.responseInfo.sequenceId = none)) := by
  unfold afterSection
  cases rpcMeta.responseInfo.timeout with
  | true =>
      simp only [if_true, true_and]
      cases ht : h.client.mTimeoutHandleMap.lookup rpcMeta.responseInfo.sequenceId with
      | none => exact .inr (.inr ⟨_, rfl, by simp, by simp⟩)
      | some t =>
          cases hcall : t.callback with
          | none => exact .inr (.inr ⟨.ok (), by simp [hcall], by simp [hcall], by simp⟩)
          | some callback => exact .inl ⟨t, rfl, by simp [hcall], by simp [hcall]⟩
  | false =>
      simp only [Bool.false_eq_true, if_false, true_and, false_and]
      cases hs : h.client.mStubHandleMap.lookup rpcMeta.responseInfo.sequenceId with
      | none => exact .inr (.inr ⟨_, rfl, by simp, by simp⟩)
      | some stub => exact .inr (.inl ⟨stub, rfl, rfl⟩)

end processRpcResponse

end GayRpc
