import GayRpc.Client.Accounts

/-!
# What a sweep takes along

`checkTimeout` walks through the queue of timers and stops at the first one that is not due. That is right
as long as every call that waits with a timeout has a timer there, and no second one (`run_timers`). Then
the sweep takes along the calls whose time has come and nothing else (`expire_sweeps`).

`Sweeps` is what a sweep does to any client, by induction on its rounds: which timers it drops, which
calls it takes along for them, and what it leaves. It does not need the timers to be in order beforehand,
only that the queue gives its first element; that the callbacks come in the order of their deadlines follows
from this.

That every waiting call has one timer is proved with a budget: the right to put a timer of the call `q`
into the queue is in the counter until the id is drawn, and nobody gets it twice; and with an invariant for
the other direction, since who takes a timer off the queue takes the call out of the maps.
-/

namespace GayRpc

variable {queue : PriorityQueue WaitResponseTimer WaitResponseTimer.le} {D H T Msg Ctx U : Type}

namespace BaseClient

variable (c : BaseClient queue D H T) (q : UInt64)

def timers : Multiset WaitResponseTimer :=
  (queue.elems c.mWaitResponseTimerQueue).filter fun timer => timer.mSeqID = q

/-- The call `q` waits with a timeout, which ends at `e`. -/
def Deadline (e : Int64) : Prop :=
  q ∈ c.mTimeoutHandleMap ∧ ⟨e, q⟩ ∈ queue.elems c.mWaitResponseTimerQueue

/-- The maps agree, and every call that waits with a timeout has a timer. -/
structure Ticking : Prop where
  consistent : c.Consistent
  ticks : ∀ q ∈ c.mTimeoutHandleMap, c.timers q ≠ 0

variable {c q}

theorem mem_timers {timer : WaitResponseTimer} :
    timer ∈ c.timers q ↔ timer ∈ queue.elems c.mWaitResponseTimerQueue ∧ timer.mSeqID = q :=
  Multiset.mem_filter

theorem deadline_iff {e : Int64} : c.Deadline q e ↔ q ∈ c.mTimeoutHandleMap ∧ ⟨e, q⟩ ∈ c.timers q := by
  rw [mem_timers]
  exact ⟨fun h => ⟨h.1, h.2, rfl⟩, fun h => ⟨h.1, h.2.1⟩⟩

theorem timers_popTimer {head : WaitResponseTimer} (h : queue.top c.mWaitResponseTimerQueue = some head)
    (hq : head.mSeqID ≠ q) : c.popTimer.timers q = c.timers q := by
  have helems := queue.elems_pop h
  unfold timers
  rw [helems, Multiset.filter_cons_of_neg (queue.elems (queue.pop c.mWaitResponseTimerQueue)) hq]
  rfl

theorem elems_popTimer {head : WaitResponseTimer} (h : queue.top c.mWaitResponseTimerQueue = some head) :
    queue.elems c.popTimer.mWaitResponseTimerQueue ≤ queue.elems c.mWaitResponseTimerQueue := by
  rw [queue.elems_pop h]
  exact Multiset.le_cons_self _ head

/-! ## The loop -/

/-- The sweep at `now` of the client `c` leaves `c'` and takes `callbacks` along, those of `due`. -/
structure Sweeps (now : Int64) (c c' : BaseClient queue D H T)
    (callbacks : List (UInt64 × TimeoutCallback T)) (due : List WaitResponseTimer) : Prop where
  ids : callbacks.map Prod.fst = due.map WaitResponseTimer.mSeqID
  nodup : (callbacks.map Prod.fst).Nodup
  ordered : due.Pairwise WaitResponseTimer.le
  due : ∀ timer ∈ due, timer ∈ queue.elems c.mWaitResponseTimerQueue ∧ timer.mEndTime ≤ now
  callback : ∀ p ∈ callbacks, c.mTimeoutHandleMap.lookup p.1 = some p.2
  removed : ∀ q ∈ callbacks.map Prod.fst,
    c'.mStubHandleMap.lookup q = none ∧ c'.mTimeoutHandleMap.lookup q = none
  kept : ∀ q, q ∉ callbacks.map Prod.fst → c'.mStubHandleMap.lookup q = c.mStubHandleMap.lookup q ∧
    c'.mTimeoutHandleMap.lookup q = c.mTimeoutHandleMap.lookup q
  elems : queue.elems c'.mWaitResponseTimerQueue ≤ queue.elems c.mWaitResponseTimerQueue
  timers : ∀ q ∈ c'.mTimeoutHandleMap, c'.timers q = c.timers q
  later : ∀ timer ∈ queue.elems c'.mWaitResponseTimerQueue,
    timer.mSeqID ∈ c'.mTimeoutHandleMap → now < timer.mEndTime

namespace Sweeps

variable {now : Int64} {c' : BaseClient queue D H T} {callbacks : List (UInt64 × TimeoutCallback T)}
  {due : List WaitResponseTimer} {head : WaitResponseTimer}

/-- A call that still waits has waited before, and was not taken along. -/
theorem mem_of_mem (h : Sweeps now c c' callbacks due) (hq : q ∈ c'.mTimeoutHandleMap) :
    q ∉ callbacks.map Prod.fst ∧ q ∈ c.mTimeoutHandleMap := by
  obtain ⟨t, ht⟩ := Finmap.mem_iff.mp hq
  by_cases hmem : q ∈ callbacks.map Prod.fst
  · rw [(h.removed q hmem).2] at ht
    cases ht
  · rw [(h.kept q hmem).2] at ht
    exact ⟨hmem, Finmap.mem_of_lookup_eq_some ht⟩

theorem stop (h : ∀ timer ∈ queue.elems c.mWaitResponseTimerQueue, now < timer.mEndTime) :
    Sweeps now c c [] [] where
  ids := rfl
  nodup := .nil
  ordered := .nil
  due := by simp
  callback := by simp
  removed := by simp
  kept _ _ := ⟨rfl, rfl⟩
  elems := le_refl _
  timers _ _ := rfl
  later timer ht _ := h timer ht

/-- The head belongs to a call that does not wait any more. -/
theorem skip (htop : queue.top c.mWaitResponseTimerQueue = some head)
    (hnone : c.mTimeoutHandleMap.lookup head.mSeqID = none)
    (h : Sweeps now c.popTimer c' callbacks due) : Sweeps now c c' callbacks due where
  ids := h.ids
  nodup := h.nodup
  ordered := h.ordered
  due timer ht := ⟨Multiset.mem_of_le (elems_popTimer htop) (h.due timer ht).1, (h.due timer ht).2⟩
  callback := h.callback
  removed := h.removed
  kept := h.kept
  elems := h.elems.trans (elems_popTimer htop)
  timers q hq := by
    rw [h.timers q hq]
    refine timers_popTimer htop fun heq => ?_
    obtain ⟨t, ht⟩ := Finmap.mem_iff.mp (h.mem_of_mem (heq ▸ hq)).2
    rw [popTimer_mTimeoutHandleMap, hnone] at ht
    cases ht
  later := h.later

/-- The head belongs to a call that waits. -/
theorem take (htop : queue.top c.mWaitResponseTimerQueue = some head) (hdue : head.mEndTime ≤ now)
    {t : TimeoutCallback T} (ht : c.mTimeoutHandleMap.lookup head.mSeqID = some t)
    (h : Sweeps now (c.forget head.mSeqID).popTimer c' callbacks due) :
    Sweeps now c c' ((head.mSeqID, t) :: callbacks) (head :: due) where
  ids := by rw [List.map_cons, List.map_cons, h.ids]
  nodup := by
    -- what was taken out is not found a second time
    refine List.nodup_cons.mpr ⟨fun hmem => ?_, h.nodup⟩
    obtain ⟨p, hp, heq⟩ := List.mem_map.mp hmem
    have hp := h.callback p hp
    rw [heq, popTimer_mTimeoutHandleMap, forget, Finmap.lookup_erase] at hp
    cases hp
  ordered := by
    refine List.pairwise_cons.mpr ⟨fun timer htimer => ?_, h.ordered⟩
    exact queue.le_top htop timer (Multiset.mem_of_le (elems_popTimer htop) (h.due timer htimer).1)
  due := by
    refine List.forall_mem_cons.mpr ⟨⟨queue.mem_of_top htop, hdue⟩, fun timer htimer => ?_⟩
    exact ⟨Multiset.mem_of_le (elems_popTimer htop) (h.due timer htimer).1, (h.due timer htimer).2⟩
  callback := by
    refine List.forall_mem_cons.mpr ⟨ht, fun p hp => ?_⟩
    exact (Finmap.of_lookup_erase (h.callback p hp)).2
  removed := by
    refine List.forall_mem_cons.mpr ⟨?_, h.removed⟩
    -- whether or not its id comes up again further down the queue
    by_cases hmem : head.mSeqID ∈ callbacks.map Prod.fst
    · exact h.removed _ hmem
    · obtain ⟨hstub, htimeout⟩ := h.kept _ hmem
      rw [hstub, htimeout]
      exact ⟨Finmap.lookup_erase _ _, Finmap.lookup_erase _ _⟩
  kept q hq := by
    obtain ⟨hne, hmem⟩ := not_or.mp fun hor => hq (List.mem_cons.mpr hor)
    obtain ⟨hstub, htimeout⟩ := h.kept q hmem
    rw [hstub, htimeout]
    exact ⟨Finmap.lookup_erase_ne hne, Finmap.lookup_erase_ne hne⟩
  elems := h.elems.trans (elems_popTimer htop)
  timers q hq := by
    rw [h.timers q hq]
    refine timers_popTimer (c := c.forget head.mSeqID) htop fun heq => ?_
    exact absurd heq.symm (Finmap.mem_erase.mp (h.mem_of_mem hq).2).1
  later := h.later

end Sweeps

theorem Rounds.sweeps {c' : BaseClient queue D H T} {now : Int64}
    {callbacks : List (UInt64 × TimeoutCallback T)} (h : Rounds now c c' callbacks) :
    ∃ due, Sweeps now c c' callbacks due := by
  induction h with
  | stop hlater => exact ⟨[], .stop hlater⟩
  | @take c c' head t callbacks htop hdue ht _ ih =>
      obtain ⟨due, hsweeps⟩ := ih
      exact ⟨head :: due, hsweeps.take htop hdue ht⟩
  | skip htop hdue hnone _ ih =>
      obtain ⟨due, hsweeps⟩ := ih
      exact ⟨due, hsweeps.skip htop hnone⟩

theorem expire_sweeps (now : Int64) (c : BaseClient queue D H T) :
    ∃ due, Sweeps now c (c.expire now).1 (c.expire now).2 due :=
  (c.expire_rounds now).sweeps

/-! ## Every waiting call has one timer -/

namespace Ticking

theorem fresh : ({} : BaseClient queue D H T).Ticking where
  consistent := .fresh
  ticks _ h := absurd h Finmap.notMem_empty

theorem allocate (h : c.Ticking) : c.allocate.Ticking := ⟨h.consistent.allocate, h.ticks⟩

theorem insertTimed (h : c.Ticking) {stub : ResponseStub D H} {t : TimeoutCallback T}
    {timer : WaitResponseTimer} (hs : stub.owner = q) (ht : t.owner = q) (htimer : timer.mSeqID = q) :
    (c.insertTimed q stub t timer).Ticking where
  consistent := h.consistent.insertTimed hs ht timer
  ticks x hx := by
    have hpush : (c.insertTimed q stub t timer).timers x =
        (timer ::ₘ queue.elems c.mWaitResponseTimerQueue).filter fun timer => timer.mSeqID = x :=
      congrArg _ (queue.elems_push _ _)
    rw [hpush]
    obtain rfl | hx := Finmap.mem_insert.mp hx
    · rw [Multiset.filter_cons_of_pos (queue.elems c.mWaitResponseTimerQueue) htimer]
      exact Multiset.cons_ne_zero
    · intro hzero
      refine h.ticks x hx (Multiset.le_zero.mp ?_)
      rw [← hzero]
      exact Multiset.filter_le_filter _ (Multiset.le_cons_self _ _)

theorem insertUntimed (h : c.Ticking) {stub : ResponseStub D H} (hs : stub.owner = q)
    (ht : stub.timed = false) : (c.insertUntimed q stub).Ticking :=
  ⟨h.consistent.insertUntimed hs ht, h.ticks⟩

theorem forget (h : c.Ticking) (q : UInt64) : (c.forget q).Ticking :=
  ⟨h.consistent.forget q, fun x hx => h.ticks x (Finmap.mem_erase.mp hx).2⟩

theorem expire (h : c.Ticking) (now : Int64) : (c.expire now).1.Ticking := by
  obtain ⟨due, hsweeps⟩ := c.expire_sweeps now
  refine ⟨(h.consistent.rounds (c.expire_rounds now)).1, fun x hx => ?_⟩
  rw [hsweeps.timers x hx]
  exact h.ticks x (hsweeps.mem_of_mem hx).2

end Ticking

variable (c q) (P : WaitResponseTimer → Prop) [DecidablePred P]

/-- The right to a timer of the call `q` with the property `P`: nobody has drawn the id yet, or there is
such a timer. -/
def timerRight : ℕ :=
  (if c.mSequenceID ≤ q.toNat then 1 else 0) +
    (queue.elems c.mWaitResponseTimerQueue).countP fun timer => timer.mSeqID = q ∧ P timer

theorem timerRight_allocate (h : c.allocate.mSequenceID < 2 ^ 64) :
    (if c.nextID = q then 1 else 0) + c.allocate.timerRight q P ≤ c.timerRight q P := by
  have hdrawn := c.drawn_allocate q h
  have helems : c.allocate.mWaitResponseTimerQueue = c.mWaitResponseTimerQueue := rfl
  rw [timerRight, timerRight, helems]
  omega

theorem timerRight_insertTimed (x : UInt64) (stub : ResponseStub D H) (t : TimeoutCallback T)
    {timer : WaitResponseTimer} (htimer : timer.mSeqID = x) :
    (c.insertTimed x stub t timer).timerRight q P =
      (if x = q ∧ P timer then 1 else 0) + c.timerRight q P := by
  have hcount : (c.insertTimed x stub t timer).mSequenceID = c.mSequenceID := rfl
  have helems : queue.elems (c.insertTimed x stub t timer).mWaitResponseTimerQueue =
      timer ::ₘ queue.elems c.mWaitResponseTimerQueue := queue.elems_push _ _
  rw [timerRight, timerRight, hcount, helems, Multiset.countP_cons, htimer]
  omega

theorem timerRight_expire (now : Int64) : (c.expire now).1.timerRight q P ≤ c.timerRight q P := by
  obtain ⟨due, hsweeps⟩ := c.expire_sweeps now
  rw [timerRight, timerRight, (c.expire_rounds now).mSequenceID]
  exact Nat.add_le_add_left (Multiset.countP_le_of_le _ hsweeps.elems) _

theorem timerRight_fresh : ({} : BaseClient queue D H T).timerRight q P = 1 := by
  have helems : queue.elems ({} : BaseClient queue D H T).mWaitResponseTimerQueue = 0 := queue.elems_empty
  rw [timerRight, helems, if_pos (Nat.zero_le _), Multiset.countP_zero]

end BaseClient

/-- Whoever draws the id `q` may put one timer with the property `P` into the queue for it. -/
def timerBudget (q : UInt64) (P : WaitResponseTimer → Prop) [DecidablePred P] :
    Budget (Host queue D H T U) (ClientEvent Msg) where
  inv h := h.client.Ticking
  bound h := h.client.mSequenceID < 2 ^ 64
  potential h := h.client.timerRight q P
  cost _ := 0

theorem accounts_timerBudget (q : UInt64) (P : WaitResponseTimer → Prop) [DecidablePred P] :
    Accounts (timerBudget q P : Budget (Host queue D H T U) (ClientEvent Msg))
      (fun x => if x = q then 1 else 0) (fun _ => 0) where
  consistent hs := hs.consistent
  inv_setUser _ hs := hs
  potential_setUser _ _ := rfl
  request _ _ := Nat.zero_le _
  handle _ _ _ := Nat.le_refl 0
  timeout _ := Nat.le_refl 0
  allocate {h} hs hb := ⟨hs.allocate, h.client.timerRight_allocate q P hb⟩
  insertTimed {h x stub t timer} hstub ht htimer hs := by
    refine ⟨hs.insertTimed hstub ht htimer, ?_⟩
    have hright := h.client.timerRight_insertTimed q P x stub t htimer
    refine hright.le.trans (Nat.add_le_add_right ?_ _)
    -- one unit per timer of the call, paid from the id it was drawn with
    split_ifs with hboth hx
    · exact Nat.le_refl 1
    · exact absurd hboth.1 hx
    · exact Nat.zero_le 1
    · exact Nat.le_refl 0
  insertUntimed {h x stub} hstub htimed hs := ⟨hs.insertUntimed hstub htimed, Nat.le_add_left _ _⟩
  forget {h} x hs := by
    refine ⟨hs.forget x, ?_⟩
    rw [ite_self, Nat.zero_add]
    exact Nat.le_refl _
  expire {h} now hs := by
    refine ⟨hs.expire now, ?_⟩
    -- the callbacks of a sweep cost nothing here, they have no timers
    have hzero : ((h.client.expire now).2.map fun _ => 0).sum = 0 := by simp
    rw [hzero, Nat.zero_add]
    exact h.client.timerRight_expire q P now

theorem clientWorld_timers (code : ClientCode D H T Msg Ctx U) (q : UInt64)
    (P : WaitResponseTimer → Prop) [DecidablePred P] :
    (clientWorld code : World (Host queue D H T U) _ _ _).Free (timerBudget q P) 0 := by
  refine (accounts_timerBudget q P).clientWorld code (fun _ h => absurd rfl h) (fun _ hb => hb) ?_ ?_
  · intro h h' hclient hs
    show h'.client.Ticking
    rw [hclient]
    exact hs
  · intro h h' hclient
    show h'.client.timerRight q P = h.client.timerRight q P
    rw [hclient]

theorem worth_timers (q : UInt64) (P : WaitResponseTimer → Prop) [DecidablePred P] (clock : Int64)
    (user : U) : (⟨Host.fresh clock user, []⟩ : Pool (Host queue D H T U) (ClientEvent Msg) Empty
      (Except Exn Unit)).Worth (timerBudget q P) 0 1 :=
  ⟨.fresh, 0, (Nat.zero_add _).trans_le (BaseClient.timerRight_fresh q P).le, trivial⟩

/-- In every run of a client that starts fresh, every call that waits with a timeout has one timer, and
its id has been drawn. -/
theorem run_timers (code : ClientCode D H T Msg Ctx U) {clock : Int64} {user : U}
    {es : List (ClientEvent Msg)} {b : Pool (Host queue D H T U) (ClientEvent Msg) Empty (Except Exn Unit)}
    (hrun : Pool.Run (clientWorld code) ⟨Host.fresh clock user, []⟩ es b) :
    b.state.client.Ticking ∧ ∀ q ∈ b.state.client.mTimeoutHandleMap,
      (b.state.client.timers q).card = 1 ∧ q.toNat < b.state.client.mSequenceID := by
  have hticking : b.state.client.Ticking :=
    hrun.inv (clientWorld_timers code 0 fun _ => True) (worth_timers 0 _ clock user)
  refine ⟨hticking, fun q hq => ?_⟩
  obtain ⟨m, hm, -, n, hn, -⟩ := hrun.worth (clientWorld_timers code q fun _ => True)
    (worth_timers q _ clock user)
  have hle : b.state.client.timerRight q (fun _ => True) ≤ 1 := by
    show (timerBudget q (fun _ => True) : Budget (Host queue D H T U) (ClientEvent Msg)).potential _ ≤ 1
    omega
  -- a pending call has a timer, and its one unit pays for no second
  have hpos := Multiset.card_pos.mpr (hticking.ticks q hq)
  have hcount : (queue.elems b.state.client.mWaitResponseTimerQueue).countP
      (fun timer => timer.mSeqID = q ∧ True) = (b.state.client.timers q).card := by
    simp only [and_true, Multiset.countP_eq_card_filter]
    rfl
  rw [BaseClient.timerRight, hcount] at hle
  split_ifs at hle with hdrawn
  · omega
  · exact ⟨by omega, by omega⟩

end GayRpc
