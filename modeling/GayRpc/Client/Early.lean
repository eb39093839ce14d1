import GayRpc.Client.Expiry

/-!
# Timeouts that come early

The end of a timeout is computed in 64 bits: the seconds are converted to nanoseconds, and the reading of
the clock is added. As long as the end fits, no sweep that reads an earlier clock runs the callback of the
call; where it does not fit, one does (`neverEarly_iff`).

A run of the operations shows here, beside each event of a sweep, which reading of the clock the sweep goes
by. A call that reads `now` off the clock is watched from this reading on, among any other operations. Again
a budget says that nothing is early: a timer of the call is worth something only if it ends at the right
time, and a sweep that goes by an earlier reading does not get at it (`timerRight_early`).

The other direction needs a run. When the end has wrapped around, or the conversion has, the timer in the
queue ends at some other time, and there is a time before the exact end at which a sweep takes the call
along (`le_of_neverEarly`). With the longest timeout there is, that is one second before the call was made
(`maxValue_early`).
-/

namespace GayRpc

variable {queue : PriorityQueue WaitResponseTimer WaitResponseTimer.le} {D H T Msg Ctx U : Type}

/-- A program of the client that shows what it does beside `reading`. -/
def shownAt (reading : Option Int64) (p : ClientProg queue D H T Msg U) :
    Prog (Host queue D H T U) (Option Int64 × ClientEvent Msg) Empty Empty (Except Exn Unit) :=
  p.within some (fun _ h => h) (Prod.mk reading)

/-- A program whose first section reads the clock. -/
def dated : ClientProg queue D H T Msg U →
    Prog (Host queue D H T U) (Option Int64 × ClientEvent Msg) Empty Empty (Except Exn Unit)
  | .act f k => .act f fun h => shownAt (some h.clock) (k h)
  | p => shownAt none p

/-- The operations of `clientWorld`; sweeps with their readings. -/
inductive DatedOperation (code : ClientCode D H T Msg Ctx U) :
    Prog (Host queue D H T U) (Option Int64 × ClientEvent Msg) Empty Empty (Except Exn Unit) → Prop where
  | call (r : CallRequest D H T Msg) : DatedOperation code (shownAt none (call code r))
  | processRpcResponse (rpcMeta : RpcMeta) (data : StringView) (context : Ctx) :
      DatedOperation code (shownAt none (processRpcResponse code rpcMeta data context))
  | checkTimeout : DatedOperation code (dated (checkTimeout code))

def datedWorld (code : ClientCode D H T Msg Ctx U) :
    World (Host queue D H T U) (Option Int64 × ClientEvent Msg) Empty (Except Exn Unit) where
  env h h' := h'.client = h.client ∧ h.clock ≤ h'.clock
  spawn := DatedOperation code
  bound h := h.client.mSequenceID < 2 ^ 64

/-- What a call goes on as when it has drawn its id from `h`. -/
def afterDraw (code : ClientCode D H T Msg Ctx U) (r : CallRequest D H T Msg) (h : Host queue D H T U) :
    ClientProg queue D H T Msg U :=
  match call code r with
  | .act _ k => k h
  | p => p

/-- `q` is `p`, alone or with something that waits for its end. -/
inductive BeginsWith (p : ClientProg queue D H T Msg U) : ClientProg queue D H T Msg U → Prop where
  | alone : BeginsWith p p
  | followed (k : Except Exn Unit → ClientProg queue D H T Msg U) : BeginsWith p (p.bind k)

/-- In every run in which a call with the timeout, wherever it is issued, reads `now` off the clock: no
sweep that goes by a reading before the exact end of the timeout runs the timeout callback of the call. -/
def NeverEarly (queue : PriorityQueue WaitResponseTimer WaitResponseTimer.le)
    (code : ClientCode D H T Msg Ctx U) (timeout now : Int64) : Prop :=
  ∀ {clock user es₁ es₂ r timeoutCallback h₀ q o p l ts b} {h : Host queue D H T U},
    r.timed = some (timeout, timeoutCallback) → BeginsWith (afterDraw code r h₀) q →
    Pool.Run (datedWorld code) ⟨Host.fresh clock user, []⟩ es₁ ⟨h, l ++ shownAt o q :: ts⟩ →
    h.clock = now → (shownAt o q).next h = some ([], h, [p]) →
    Pool.Run (datedWorld code) ⟨h, l ++ p :: ts⟩ es₂ b →
    ∀ reading x, (some reading, .timeout x h₀.client.nextID) ∈ es₂ →
      now.toInt + timeout.toInt * 10 ^ 9 ≤ reading.toInt

/-- The conversion to nanoseconds and the addition do not overflow. -/
def EndFits (timeout now : Int64) : Prop :=
  (WaitResponseTimer.nanoseconds timeout).toInt = timeout.toInt * 10 ^ 9 ∧
    ∀ q, (WaitResponseTimer.start q (WaitResponseTimer.nanoseconds timeout) now).mEndTime.toInt =
      now.toInt + timeout.toInt * 10 ^ 9

/-! ## The arithmetic -/

theorem WaitResponseTimer.toInt_nanoseconds (timeout : Int64) :
    (nanoseconds timeout).toInt = (timeout.toInt * 10 ^ 9).bmod (2 ^ 64) :=
  Int64.toInt_mul timeout 1000000000

theorem WaitResponseTimer.toInt_end (timeout now : Int64) :
    (now + nanoseconds timeout).toInt = (now.toInt + timeout.toInt * 10 ^ 9).bmod (2 ^ 64) := by
  rw [Int64.toInt_add, toInt_nanoseconds, Int.add_bmod_bmod]

/-- In 64 bits, what is in range stays as it is. -/
theorem bmod_eq_self {x : ℤ} (hlow : -2 ^ 63 ≤ x) (hhigh : x < 2 ^ 63) : x.bmod (2 ^ 64) = x :=
  Int.bmod_eq_of_le (by omega) (by omega)

theorem endFits_iff {timeout now : Int64} (hpos : 0 ≤ timeout) :
    EndFits timeout now ↔
      timeout.toInt * 10 ^ 9 < 2 ^ 63 ∧ now.toInt + timeout.toInt * 10 ^ 9 < 2 ^ 63 := by
  have hpos : 0 ≤ timeout.toInt := Int64.le_iff_toInt_le.mp hpos
  have hnow := now.le_toInt
  constructor
  · rintro ⟨hconversion, hend⟩
    rw [← hend 0, ← hconversion]
    exact ⟨Int64.toInt_lt _, Int64.toInt_lt _⟩
  · rintro ⟨hconversion, hend⟩
    refine ⟨?_, fun q => ?_⟩
    · rw [WaitResponseTimer.toInt_nanoseconds, bmod_eq_self (by omega) hconversion]
    · show (now + WaitResponseTimer.nanoseconds timeout).toInt = _
      rw [WaitResponseTimer.toInt_end, bmod_eq_self (by omega) hend]

namespace BaseClient

variable {c : BaseClient queue D H T} {now E : Int64} {n : UInt64}

/-- A sweep leaves no timer that is due in the queue. -/
theorem Rounds.later {c' : BaseClient queue D H T} {callbacks : List (UInt64 × TimeoutCallback T)}
    (h : Rounds now c c' callbacks) :
    ∀ timer ∈ queue.elems c'.mWaitResponseTimerQueue, now < timer.mEndTime := by
  induction h with
  | stop hlater => exact hlater
  | take htop hdue ht _ ih => exact ih
  | skip htop hdue hnone _ ih => exact ih

/-- A sweep that goes by a reading before `E` and takes the call `n` along has found a timer of this call
that ends before `E`, and removed it. -/
theorem timerRight_early (n : UInt64) (E now : Int64) (c : BaseClient queue D H T) :
    (if n ∈ (c.expire now).2.map Prod.fst ∧ now < E then 1 else 0) +
      (c.expire now).1.timerRight n (fun timer => timer.mEndTime ≠ E) ≤
        c.timerRight n fun timer => timer.mEndTime ≠ E := by
  split
  · next hearly =>
      obtain ⟨hmem, hlt⟩ := hearly
      obtain ⟨due, hsweeps⟩ := c.expire_sweeps now
      rw [hsweeps.ids] at hmem
      obtain ⟨timer, htimer, rfl⟩ := List.mem_map.mp hmem
      obtain ⟨helem, hdue⟩ := hsweeps.due timer htimer
      -- the timer is gone, and counts in what there was before
      have hgone : timer ∉ queue.elems (c.expire now).1.mWaitResponseTimerQueue := fun hleft =>
        Int64.not_lt.mpr hdue ((c.expire_rounds now).later timer hleft)
      have hle : timer ::ₘ queue.elems (c.expire now).1.mWaitResponseTimerQueue ≤
          queue.elems c.mWaitResponseTimerQueue :=
        (Multiset.cons_le_of_notMem hgone).mpr ⟨helem, hsweeps.elems⟩
      have hcountP := Multiset.countP_le_of_le
        (fun t => t.mSeqID = timer.mSeqID ∧ t.mEndTime ≠ E) hle
      have hne : timer.mEndTime ≠ E := fun heq => Int64.not_lt.mpr hdue (heq ▸ hlt)
      rw [Multiset.countP_cons_of_pos _ ⟨rfl, hne⟩] at hcountP
      rw [timerRight, timerRight, (c.expire_rounds now).mSequenceID]
      omega
  · rw [Nat.zero_add]
    exact timerRight_expire c n _ now

end BaseClient

/-! ## What it takes to be early -/

/-- A sweep that goes by a reading before `E` may not run the callback of the call `n`. -/
def earlyCost (n : UInt64) (E : Int64) : Option Int64 × ClientEvent Msg → ℕ
  | (some reading, .timeout _ owner) => if owner = n ∧ reading < E then 1 else 0
  | _ => 0

/-- It costs a timer of the call `n` that does not end at `E`. -/
def earlyBudget (n : UInt64) (E : Int64) : Budget (Host queue D H T U) (Option Int64 × ClientEvent Msg) :=
  (timerBudget n fun timer => timer.mEndTime ≠ E :
    Budget (Host queue D H T U) (ClientEvent Msg)).charging (earlyCost n E)

open Prog Pool

section affords

variable {n : UInt64} {E : Int64} {m : ℕ} {reading : Option Int64} (code : ClientCode D H T Msg Ctx U)

theorem earlyCost_none (e : ClientEvent Msg) : earlyCost n E (none, e) = 0 := rfl

theorem earlyCost_other {e : ClientEvent Msg} (he : e.Other) : earlyCost n E (reading, e) = 0 := by
  cases reading with
  | none => rfl
  | some now =>
      cases e with
      | timeout received owner => cases he
      | request rpcMeta message => rfl
      | handle received owner message error => rfl

/-- Programs that cost nothing beside a reading. -/
theorem affords_shownAt {p : ClientProg queue D H T Msg U}
    (hp : Affords (timerBudget n fun timer => timer.mEndTime ≠ E) 0 m p) {G : ClientEvent Msg → Prop}
    {C : Host queue D H T U → Host queue D H T U → Prop} (hG : p.Guarantees (fun _ => True) C G)
    (hcost : ∀ e, G e → earlyCost n E (reading, e) = 0) :
    Affords (earlyBudget n E) 0 m (shownAt reading p) :=
  Affords.shown (Prod.mk reading) (earlyCost n E) (hp.charge _ hG fun e he => (hcost e he).le)

omit code in
theorem shownAt_bind (p : ClientProg queue D H T Msg U)
    (k : Except Exn Unit → ClientProg queue D H T Msg U) :
    shownAt reading (p.bind k) = (shownAt reading p).bind fun r => shownAt reading (k r) := by
  show (p.bind k).within (fun h => some (id h)) (fun _ h => h) (Prod.mk reading) = _
  rw [within_bind]
  rfl

/-- What does not go by a reading costs nothing. -/
theorem affords_shownAt_none {p : ClientProg queue D H T Msg U}
    (hp : Affords (timerBudget n fun timer => timer.mEndTime ≠ E) 0 m p) :
    Affords (earlyBudget n E) 0 m (shownAt none p) :=
  affords_shownAt hp (.nothing p) fun e _ => earlyCost_none e

/-- A callback itself is what costs something, not what it does next. -/
theorem affords_runTimeout {now : Int64} {x : UInt64} {t : TimeoutCallback T} (ht : t.owner = x)
    {kont : Except Exn Unit → ClientProg queue D H T Msg U}
    (hk : ∀ r, Affords (earlyBudget n E) 0 m (shownAt (some now) (kont r))) :
    Affords (earlyBudget n E) 0 ((if x = n ∧ now < E then 1 else 0) + m)
      (shownAt (some now) ((runTimeout code x t).bind kont)) := by
  unfold runTimeout
  cases t.callback with
  | none => exact (hk _).mono (Nat.le_add_left _ _)
  | some callback =>
      have huser : Affords (earlyBudget n E) 0 0 (shownAt (some now)
          (runUser code (code.timeout callback) : ClientProg queue D H T Msg U)) :=
        affords_shownAt ((accounts_timerBudget n _).runUser code _) (draws_runUser code _)
          fun e he => earlyCost_other he
      refine ⟨m, ?_, ?_⟩
      · rw [← ht]
        exact Nat.le_refl _
      · show Affords _ 0 m (shownAt (some now) ((runUser code (code.timeout callback)).bind kont))
        rw [shownAt_bind, ← Nat.zero_add m]
        exact huser.bind hk

/-- Of the callbacks of a sweep, at most one is that of the call. -/
theorem affords_runCallbacks {now : Int64} (callbacks : List (UInt64 × TimeoutCallback T))
    (hnodup : (callbacks.map Prod.fst).Nodup) (h : ∀ p ∈ callbacks, p.2.owner = p.1) :
    Affords (earlyBudget n E) 0 (if n ∈ callbacks.map Prod.fst ∧ now < E then 1 else 0)
      (shownAt (some now) (runCallbacks code callbacks : ClientProg queue D H T Msg U)) := by
  induction callbacks with
  | nil => trivial
  | cons p callbacks ih =>
      obtain ⟨howner, hrest⟩ := List.forall_mem_cons.mp h
      obtain ⟨hnot, hnodup⟩ := List.nodup_cons.mp hnodup
      apply Affords.mono (n := (if p.1 = n ∧ now < E then 1 else 0) +
        if n ∈ callbacks.map Prod.fst ∧ now < E then 1 else 0)
      · apply affords_runTimeout code howner
        intro r
        cases r with
        | ok _ => exact ih hnodup hrest
        | error e => trivial
      · simp only [List.map_cons, List.mem_cons]
        grind

/-- A sweep pays for its callbacks with the timers it takes off the queue. -/
theorem affords_checkTimeout :
    Affords (earlyBudget n E) 0 0 (dated (checkTimeout code : ClientProg queue D H T Msg U)) := by
  intro h h' hs _ hf
  obtain rfl := Option.some.inj hf
  refine ⟨hs, 0, Nat.le_refl _, ?_⟩
  intro h₁ h₂ hs₁ _ hf₁
  obtain rfl : h₁.mapClient (fun c => (c.expire h.clock).1) = h₂ := Option.some.inj hf₁
  have hticking : h₁.client.Ticking := hs₁
  obtain ⟨due, hsweeps⟩ := h₁.client.expire_sweeps h.clock
  refine ⟨hticking.expire h.clock, _, ?_, affords_runCallbacks code _ hsweeps.nodup fun p hp => ?_⟩
  · rw [Nat.zero_add]
    exact BaseClient.timerRight_early n E h.clock h₁.client
  · exact hticking.consistent.timeout_owner (hsweeps.callback p hp)

theorem datedWorld_free : (datedWorld code : World (Host queue D H T U) _ _ _).Free (earlyBudget n E) 0 where
  bound _ hb := hb
  env_inv h h' henv hs := by
    show h'.client.Ticking
    rw [henv.1]
    exact hs
  env_potential h h' henv _ := by
    show h'.client.timerRight n _ ≤ h.client.timerRight n _
    rw [henv.1]
  spawn p hp := by
    cases hp with
    | call r => exact affords_shownAt_none ((accounts_timerBudget n _).call code r)
    | processRpcResponse rpcMeta data context =>
        apply affords_shownAt_none
        exact (accounts_timerBudget n _).processRpcResponse code (fun _ h => absurd rfl h) _ _ _
    | checkTimeout => exact affords_checkTimeout code

theorem worth_fresh_early (clock : Int64) (user : U) :
    (⟨Host.fresh clock user, []⟩ : Pool (Host queue D H T U) (Option Int64 × ClientEvent Msg) Empty
      (Except Exn Unit)).Worth (earlyBudget n E) 0 1 :=
  ⟨.fresh, 0, (Nat.zero_add _).trans_le (BaseClient.timerRight_fresh n _).le, trivial⟩

/-! ## The reading of the clock -/

variable {code}

/-- A call with a timeout reads the clock, and what it does next depends on that by its timer alone. -/
theorem BeginsWith.timed {r : CallRequest D H T Msg} {timeout : Int64} {timeoutCallback : Option T}
    (hr : r.timed = some (timeout, timeoutCallback)) {h₀ : Host queue D H T U}
    {q : ClientProg queue D H T Msg U} (hq : BeginsWith (afterDraw code r h₀) q) :
    ∃ stub rest, stub.owner = h₀.client.nextID ∧ q =
      .act some fun h => .act (Host.onClient (.insertTimed h₀.client.nextID stub
        { owner := h₀.client.nextID, callback := timeoutCallback }
        (.start h₀.client.nextID (WaitResponseTimer.nanoseconds timeout) h.clock))) fun _ => rest := by
  unfold afterDraw call at hq
  rw [hr] at hq
  cases hq with
  | alone => exact ⟨_, _, rfl, rfl⟩
  | followed k => exact ⟨_, _, rfl, rfl⟩

/-- The thread of the call owns the one unit there is, since it does not know what it will read off the
clock; what it then reads decides that it keeps the unit. -/
theorem affords_reading {r : CallRequest D H T Msg} {timeout : Int64} {timeoutCallback : Option T}
    (hr : r.timed = some (timeout, timeoutCallback)) {h₀ h : Host queue D H T U}
    {q : ClientProg queue D H T Msg U} (hq : BeginsWith (afterDraw code r h₀) q)
    {p : Prog (Host queue D H T U) (Option Int64 × ClientEvent Msg) Empty Empty (Except Exn Unit)}
    (hs : h.client.Ticking) (hb : h.client.mSequenceID < 2 ^ 64)
    (hp : Affords (earlyBudget h₀.client.nextID (h.clock + WaitResponseTimer.nanoseconds timeout)) 0 m
      (shownAt reading q))
    (hnext : (shownAt reading q).next h = some ([], h, [p])) :
    ∃ a, a + 1 ≤ m ∧
      Affords (earlyBudget h₀.client.nextID (h.clock + WaitResponseTimer.nanoseconds timeout)) 0 a p := by
  obtain ⟨stub, rest, hstub, rfl⟩ := hq.timed hr
  cases hnext
  let insert (now : Int64) : BaseClient queue D H T → BaseClient queue D H T :=
    .insertTimed h₀.client.nextID stub { owner := h₀.client.nextID, callback := timeoutCallback }
      (.start h₀.client.nextID (WaitResponseTimer.nanoseconds timeout) now)
  have hright : ∀ now c, (insert now c).timerRight h₀.client.nextID
      (fun timer => timer.mEndTime ≠ h.clock + WaitResponseTimer.nanoseconds timeout) =
        (if h₀.client.nextID = h₀.client.nextID ∧ now + WaitResponseTimer.nanoseconds timeout ≠
          h.clock + WaitResponseTimer.nanoseconds timeout then 1 else 0) + c.timerRight h₀.client.nextID
            fun timer => timer.mEndTime ≠ h.clock + WaitResponseTimer.nanoseconds timeout := by
    intro now c
    exact c.timerRight_insertTimed _ _ _ stub _ rfl
  -- it might have read another time, and then it would have had to pay for its timer
  have hlater : h.clock + 1 + WaitResponseTimer.nanoseconds timeout ≠
      h.clock + WaitResponseTimer.nanoseconds timeout := by
    rw [ne_eq, Int64.add_left_inj, Int64.add_eq_left]
    decide
  obtain ⟨-, m₁, hm₁, hp₁⟩ := hp { h with clock := h.clock + 1 } { h with clock := h.clock + 1 } hs hb rfl
  obtain ⟨-, m₂, hm₂, hp₂⟩ := hp₁ h (h.mapClient (insert (h.clock + 1))) hs hb rfl
  refine ⟨m₂, ?_, ?_⟩
  · -- from the later reading the timer has to be paid for, and that much is left over here
    have hpaid := hright (h.clock + 1) h.client
    rw [if_pos ⟨rfl, hlater⟩] at hpaid
    change m₂ + (insert (h.clock + 1) h.client).timerRight _ _ ≤ m₁ + h.client.timerRight _ _ at hm₂
    change m₁ + h.client.timerRight _ _ ≤ m + h.client.timerRight _ _ at hm₁
    omega
  · intro s s' hs hb hf
    obtain rfl : s.mapClient (insert h.clock) = s' := Option.some.inj hf
    refine ⟨BaseClient.Ticking.insertTimed hs hstub rfl rfl, m₂, ?_, hp₂⟩
    have hfree := hright h.clock s.client
    rw [if_neg fun hne => hne.2 rfl, Nat.zero_add] at hfree
    exact Nat.add_le_add_left hfree.le m₂

/-- A timeout whose end fits is never early. -/
theorem neverEarly_of_lt {timeout now : Int64} (hpos : 0 ≤ timeout)
    (hend : now.toInt + timeout.toInt * 10 ^ 9 < 2 ^ 63) : NeverEarly queue code timeout now := by
  intro clock user es₁ es₂ r timeoutCallback h₀ q o p l ts b h hr hq hrun hnow hnext hrun' reading x hmem
  subst hnow
  have hworld : (datedWorld code : World (Host queue D H T U) _ _ _).Free
    (earlyBudget h₀.client.nextID (h.clock + WaitResponseTimer.nanoseconds timeout)) 0 :=
      datedWorld_free code
  have hbound : h.client.mSequenceID < 2 ^ 64 := hrun.bound (Nat.two_pow_pos 64)
  obtain ⟨w, hw, hs, v, hv, hall⟩ := hrun.worth hworld (worth_fresh_early clock user)
  obtain ⟨a, d, had, hl, a', d', had', hp, hts⟩ := hall.of_append
  obtain ⟨y, hy, hp'⟩ := affords_reading hr hq hs hbound hp hnext
  -- so nobody else owns anything
  have hworth : (⟨h, l ++ p :: ts⟩ : Pool (Host queue D H T U) (Option Int64 × ClientEvent Msg) Empty
      (Except Exn Unit)).Worth
        (earlyBudget h₀.client.nextID (h.clock + WaitResponseTimer.nanoseconds timeout)) 0 0 := by
    refine ⟨hs, 0, ?_, (hl.append ((AffordsAll.single hp').append hts)).mono ?_⟩
    · dsimp only at hv ⊢
      omega
    · omega
  -- with nothing left to spend, no sweep can run the callback before its time
  have hcost := List.sum_eq_zero_iff_forall_eq_nat.mp (Nat.le_zero.mp (hrun'.cost_le hworld hworth))
  have hzero := hcost _ (List.mem_map_of_mem hmem)
  have hnot : ¬ reading < h.clock + WaitResponseTimer.nanoseconds timeout := by
    intro hlt
    change (if _ then 1 else 0) = 0 at hzero
    rw [if_pos ⟨rfl, hlt⟩] at hzero
    cases hzero
  have hle := Int64.le_iff_toInt_le.mp (Int64.not_lt.mp hnot)
  have hlow := h.clock.le_toInt
  have hpos : 0 ≤ timeout.toInt := Int64.le_iff_toInt_le.mp hpos
  rw [WaitResponseTimer.toInt_end, bmod_eq_self (by omega) hend] at hle
  exact hle

end affords

/-! ## Early sweeps -/

namespace BaseClient

/-- Where nothing is due, nothing is taken along. -/
theorem Rounds.eq_nil {c c' : BaseClient queue D H T} {now : Int64}
    {callbacks : List (UInt64 × TimeoutCallback T)} (h : Rounds now c c' callbacks)
    (hlater : ∀ timer ∈ queue.elems c.mWaitResponseTimerQueue, now < timer.mEndTime) :
    callbacks = [] := by
  have hnot : ∀ {head}, queue.top c.mWaitResponseTimerQueue = some head → ¬ head.mEndTime ≤ now := by
    intro head htop
    exact Int64.not_le.mpr (hlater head (queue.mem_of_top htop))
  cases h with
  | stop _ => rfl
  | take htop hdue ht h => exact absurd hdue (hnot htop)
  | skip htop hdue hnone h => exact absurd hdue (hnot htop)

/-- The sweep of a client that waits for one call takes that call along, when its time has come. -/
theorem expire_insertTimed (n : UInt64) (stub : ResponseStub D H) (t : TimeoutCallback T)
    {e now : Int64} (hdue : e ≤ now) :
    ((insertTimed n stub t ⟨e, n⟩ (allocate {}) : BaseClient queue D H T).expire now).2 = [(n, t)] := by
  generalize hc : (insertTimed n stub t ⟨e, n⟩ (allocate {}) : BaseClient queue D H T) = c
  have helems : queue.elems c.mWaitResponseTimerQueue = {⟨e, n⟩} := by
    rw [← hc]
    show queue.elems (queue.push queue.empty ⟨e, n⟩) = _
    rw [queue.elems_push, queue.elems_empty]
    rfl
  have hlookup : c.mTimeoutHandleMap.lookup n = some t := by
    rw [← hc]
    exact Finmap.lookup_insert _
  -- the queue holds the one timer
  have hhead : ∀ {head}, queue.top c.mWaitResponseTimerQueue = some head → head = ⟨e, n⟩ := by
    intro head htop
    have hmem := queue.mem_of_top htop
    rw [helems] at hmem
    exact Multiset.mem_singleton.mp hmem
  have hrounds := c.expire_rounds now
  generalize (c.expire now).1 = c', (c.expire now).2 = callbacks at hrounds ⊢
  cases hrounds with
  | stop hlater =>
      have hlt := hlater ⟨e, n⟩ (by simp [helems])
      exact absurd hdue (Int64.not_le.mpr hlt)
  | take htop _ ht h =>
      obtain rfl := hhead htop
      obtain rfl := Option.some.inj (hlookup.symm.trans ht)
      -- the queue is empty after it
      have hpop := queue.elems_pop htop
      rw [helems] at hpop
      have hempty : queue.elems (queue.pop c.mWaitResponseTimerQueue) = 0 := by
        simpa using hpop
      have hnil := h.eq_nil fun timer htimer => by
        change timer ∈ queue.elems (queue.pop c.mWaitResponseTimerQueue) at htimer
        simp [hempty] at htimer
      rw [hnil]
  | skip htop _ hnone h =>
      obtain rfl := hhead htop
      rw [hlookup] at hnone
      cases hnone

end BaseClient

/-- Whatever a sweep may read when the end of the timeout, as it was computed, has come, cannot be before
the exact end. -/
theorem le_of_neverEarly [Inhabited D] [Inhabited T] [Inhabited Msg] [Inhabited U]
    {code : ClientCode D H T Msg Ctx U} {timeout now : Int64} (reading : Int64)
    (h : NeverEarly queue code timeout now) (hnow : now ≤ reading)
    (hend : now + WaitResponseTimer.nanoseconds timeout ≤ reading) :
    now.toInt + timeout.toInt * 10 ^ 9 ≤ reading.toInt := by
  let r : CallRequest D H T Msg := ⟨default, 0, 0, default, none, some (timeout, some default)⟩
  have hbegins : BeginsWith (afterDraw code r (Host.fresh now default : Host queue D H T U)) _ := .alone
  obtain ⟨stub, rest, hstub, hdraw⟩ := hbegins.timed rfl
  have hb : ∀ s : Host queue D H T U, s.client.mSequenceID = 1 → (datedWorld code).bound s := by
    intro s hs
    show s.client.mSequenceID < 2 ^ 64
    rw [hs]
    decide
  have hrun : Run (datedWorld code) ⟨(Host.fresh now default : Host queue D H T U), []⟩ []
      ⟨_, [shownAt none (call code r)]⟩ := .single (.spawn [] (.call r))
  have hrun := hrun.tail (.act [] [] rfl (hb _ rfl))
  -- the call waits from here on, until the time has come
  let callback : TimeoutCallback T := { owner := 0, callback := some default }
  let drawn : Host queue D H T U := { client := .allocate {}, clock := now, user := default }
  let insert : BaseClient queue D H T → BaseClient queue D H T :=
    .insertTimed 0 stub callback (.start 0 (WaitResponseTimer.nanoseconds timeout) now)
  let later : Host queue D H T U := { drawn with client := insert drawn.client, clock := reading }
  have hnext : (shownAt none (afterDraw code r (Host.fresh now default))).next drawn =
      some ([], drawn, [shownAt none (.act (Host.onClient insert) fun _ => rest)]) := by
    rw [hdraw]
    rfl
  have h1 : Run (datedWorld code) ⟨drawn, [shownAt none (.act (Host.onClient insert) fun _ => rest)]⟩ []
      ⟨{ drawn with client := insert drawn.client }, [shownAt none rest]⟩ :=
    .single (.act [] [] rfl (hb _ rfl))
  have h2 : Run (datedWorld code) _ _ ⟨later, [shownAt none rest]⟩ :=
    h1.tail (.env _ ⟨rfl, hnow⟩ (hb _ rfl))
  have h3 := h2.tail (.spawn _ .checkTimeout)
  have h4 := h3.tail (.act [] _ rfl (hb _ rfl))
  have hcount : (later.client.expire reading).1.mSequenceID = 1 :=
    (later.client.expire_rounds reading).mSequenceID
  have hswept : (later.client.expire reading).2 = [(0, callback)] :=
    BaseClient.expire_insertTimed 0 stub callback hend
  have h5 : Run (datedWorld code) _ _ ⟨later.mapClient fun c => (c.expire reading).1,
      [shownAt (some reading) (runCallbacks code (later.client.expire reading).2), shownAt none rest]⟩ :=
    h4.tail (.act [] _ rfl (hb _ hcount))
  rw [hswept] at h5
  have h6 := h5.tail (.emit [] _ _ (hb _ hcount))
  -- so the sweep has run it, and by `h` that was not early
  exact h rfl .alone hrun rfl hnext h6 reading 0 (List.mem_append_right _ (.head _))

/-- A timeout is never early just when its exact end is a time that the clock can show. -/
theorem neverEarly_iff [Inhabited D] [Inhabited T] [Inhabited Msg] [Inhabited U]
    (code : ClientCode D H T Msg Ctx U) {timeout now : Int64} (hpos : 0 ≤ timeout) :
    NeverEarly queue code timeout now ↔ now.toInt + timeout.toInt * 10 ^ 9 < 2 ^ 63 := by
  constructor
  · intro h
    have hle := le_of_neverEarly Int64.maxValue h (Int64.le_maxValue _) (Int64.le_maxValue _)
    have hlt := Int64.toInt_lt Int64.maxValue
    omega
  · exact neverEarly_of_lt hpos

/-- For every timeout there is, and whatever the clock reads at the call: the call never times out early
and its end is computed without an overflow, just when the timeout in nanoseconds and its exact end are
numbers that fit. -/
theorem neverEarly_and_endFits_iff [Inhabited D] [Inhabited T] [Inhabited Msg] [Inhabited U]
    (code : ClientCode D H T Msg Ctx U) {timeout now : Int64} (hpos : 0 ≤ timeout) :
    NeverEarly queue code timeout now ∧ EndFits timeout now ↔
      timeout.toInt * 10 ^ 9 < 2 ^ 63 ∧ now.toInt + timeout.toInt * 10 ^ 9 < 2 ^ 63 := by
  rw [neverEarly_iff code hpos, endFits_iff hpos]
  exact and_iff_right_of_imp And.right

theorem neverEarly_and_endFits_iff_example :
    NeverEarly (.sorted WaitResponseTimer.le) plainCode 10 0 ∧ EndFits 10 0 :=
  (neverEarly_and_endFits_iff plainCode (by decide)).mpr (by decide)

/-- The longest timeout there is ends one second before it begins. -/
theorem maxValue_early :
    (WaitResponseTimer.start 0 (WaitResponseTimer.nanoseconds Int64.maxValue) 0).mEndTime = -1000000000 ∧
      ¬ NeverEarly (.sorted WaitResponseTimer.le) plainCode Int64.maxValue 0 ∧
      ¬ EndFits Int64.maxValue 0 := by
  refine ⟨by decide, fun h => ?_, fun h => ?_⟩
  · -- a sweep at the very time of the call
    have hle := le_of_neverEarly 0 h (by decide) (by decide)
    revert hle
    decide
  · have hconversion := h.1
    revert hconversion
    decide

end GayRpc
