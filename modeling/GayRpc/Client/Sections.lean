import GayRpc.Client.Sweep
import GayRpc.Lib.Holdings

/-!
# The sections of a client

Each operation of a client is a few atomic sections, and what happens between them is not up to it.
`ClientSection` lists them, with what the thread holds of the call it is in; `Reached` says where any
interleaving of them leads, and how far every call has come by then. What there is in the two maps and in
the queue is what the calls have entered (`Reached.represents`).

    idle    →    drawn    →    timed    →    entered
                   └──────────────────────────↗

A call goes from one stage to the next with a section of the thread that holds it; without a timeout it
leaves one out. What it has entered may be taken out again by a response or a sweep, which does not change
its stage. So `Represents` reads the containers off the stages as far as it can: whatever is in a map is
what the call with this id has entered, and what waits in both maps has its timer in the queue. Nothing
here speaks of programs; those come in `Client/Representation`.
-/

namespace GayRpc

/-- How far the call with an id has come. -/
inductive Stage (D H T Msg : Type) where
  /-- nobody has drawn the id -/
  | idle
  | drawn (r : CallRequest D H T Msg)
  /-- the end of the timeout is computed -/
  | timed (r : CallRequest D H T Msg) (waitTimer : WaitResponseTimer)
  /-- the call has entered the maps, with this timer if it has a timeout -/
  | entered (r : CallRequest D H T Msg) (waitTimer : Option WaitResponseTimer)

namespace Stage

variable {D H T Msg : Type}

/-- The id is drawn, and nothing has been entered under it. -/
def Pending : Stage D H T Msg → Prop
  | idle => False
  | drawn _ => True
  | timed _ _ => True
  | entered _ _ => False

def Entered (stage : Stage D H T Msg) : Prop := ∃ r waitTimer, stage = entered r waitTimer

theorem Pending.not_entered {stage : Stage D H T Msg} (h : stage.Pending) : ¬ stage.Entered := by
  rintro ⟨r, waitTimer, rfl⟩
  exact h

end Stage

/-- What a thread holds: the id of the call that it is in, and how far it has brought it. -/
abbrev Holding (D H T Msg : Type) : Type := Option (UInt64 × Stage D H T Msg)

/-- How far the calls have come when one of them goes on. -/
def record {D H T Msg : Type} (calls : UInt64 → Stage D H T Msg) :
    Holding D H T Msg → UInt64 → Stage D H T Msg
  | some (x, stage) => Function.update calls x stage
  | none => calls

variable {queue : PriorityQueue WaitResponseTimer WaitResponseTimer.le} {D H T Msg U : Type}

/-- The atomic sections. A thread that does something else than its call lets go of what it holds. -/
inductive ClientSection : Holding D H T Msg → Host queue D H T U → Holding D H T Msg →
    Host queue D H T U → Prop where
  /-- `mSequenceID++` -/
  | draw (o : Holding D H T Msg) (r : CallRequest D H T Msg) (h : Host queue D H T U) :
      ClientSection o h (some (h.client.nextID, .drawn r)) (h.mapClient .allocate)
  /-- the clock is read for the timer -/
  | read {x : UInt64} {r : CallRequest D H T Msg} {timeout : Int64} {timeoutCallback : Option T}
      (hr : r.timed = some (timeout, timeoutCallback)) (h : Host queue D H T U) :
      ClientSection (some (x, .drawn r)) h
        (some (x, .timed r (.start x (WaitResponseTimer.nanoseconds timeout) h.clock))) h
  | insertTimed {x : UInt64} {r : CallRequest D H T Msg} {timeout : Int64} {timeoutCallback : Option T}
      {waitTimer : WaitResponseTimer} (hr : r.timed = some (timeout, timeoutCallback))
      (h : Host queue D H T U) :
      ClientSection (some (x, .timed r waitTimer)) h (some (x, .entered r (some waitTimer)))
        (h.mapClient (.insertTimed x { owner := x, timed := true, type := r.response, handle := r.handle }
          { owner := x, callback := timeoutCallback } waitTimer))
  | insertUntimed {x : UInt64} {r : CallRequest D H T Msg} (hr : r.timed = none)
      (hhandle : r.handle.isSome = true) (h : Host queue D H T U) :
      ClientSection (some (x, .drawn r)) h (some (x, .entered r none))
        (h.mapClient (.insertUntimed x
          { owner := x, timed := false, type := r.response, handle := r.handle }))
  | takeTimeout (o : Holding D H T Msg) (x : UInt64) (h : Host queue D H T U) :
      ClientSection o h none (h.mapClient (.takeTimeout x))
  | takeResponse (o : Holding D H T Msg) (x : UInt64) (h : Host queue D H T U) :
      ClientSection o h none (h.mapClient (.takeResponse x))
  | expire (o : Holding D H T Msg) (now : Int64) (h : Host queue D H T U) :
      ClientSection o h none (h.mapClient fun c => (c.expire now).1)
  | elsewhere (o : Holding D H T Msg) {h h' : Host queue D H T U} (hclient : h'.client = h.client)
      (hclock : h.clock ≤ h'.clock) : ClientSection o h none h'

/-- The host and the calls are where some interleaving of sections leads from a fresh client. -/
inductive Reached : Host queue D H T U → (UInt64 → Stage D H T Msg) → Prop where
  | fresh (clock : Int64) (user : U) : Reached (.fresh clock user) fun _ => .idle
  | after {h h' : Host queue D H T U} {calls : UInt64 → Stage D H T Msg} {o o' : Holding D H T Msg}
      (hr : Reached h calls) (ho : ∀ x stage, o = some (x, stage) → calls x = stage)
      (hs : ClientSection o h o' h') (hb : h'.client.mSequenceID < 2 ^ 64) :
      Reached h' (record calls o')

/-! ## What the containers stand for -/

namespace BaseClient

variable {c : BaseClient queue D H T} {calls : UInt64 → Stage D H T Msg} {x : UInt64}

/-- The containers hold what the calls have entered, as far as it is still there. -/
structure Represents (c : BaseClient queue D H T) (calls : UInt64 → Stage D H T Msg) : Prop where
  drawn_iff : ∀ q, calls q ≠ .idle ↔ q.toNat < c.mSequenceID
  timed : ∀ {q r waitTimer}, calls q = .timed r waitTimer → waitTimer.mSeqID = q
  stub : ∀ {q}, q ∈ c.mStubHandleMap → (calls q).Entered
  timeout : ∀ {q}, q ∈ c.mTimeoutHandleMap → q ∈ c.mStubHandleMap ∧
    ∃ r waitTimer, calls q = .entered r (some waitTimer) ∧ c.timers q = {waitTimer}
  queued : ∀ waitTimer ∈ queue.elems c.mWaitResponseTimerQueue,
    ∃ r, calls waitTimer.mSeqID = .entered r (some waitTimer)

theorem elems_insertTimed (x : UInt64) (stub : ResponseStub D H) (t : TimeoutCallback T)
    (waitTimer : WaitResponseTimer) :
    queue.elems (c.insertTimed x stub t waitTimer).mWaitResponseTimerQueue =
      waitTimer ::ₘ queue.elems c.mWaitResponseTimerQueue :=
  queue.elems_push _ _

theorem timers_insertTimed (x q : UInt64) (stub : ResponseStub D H) (t : TimeoutCallback T)
    (waitTimer : WaitResponseTimer) :
    (c.insertTimed x stub t waitTimer).timers q =
      if waitTimer.mSeqID = q then waitTimer ::ₘ c.timers q else c.timers q := by
  unfold timers
  rw [elems_insertTimed, Multiset.filter_cons]
  split
  · exact Multiset.singleton_add _ _
  · exact Multiset.zero_add _

/-! One call goes on. -/

section update

variable {stage stage' : Stage D H T Msg} {q : UInt64}

/-- What was not entered yet is not one of those that were. -/
theorem update_of_entered {r : CallRequest D H T Msg} {waitTimer : Option WaitResponseTimer}
    (hx : ¬ (calls x).Entered) (hq : calls q = .entered r waitTimer) :
    Function.update calls x stage q = .entered r waitTimer := by
  rw [Function.update_of_ne, hq]
  rintro rfl
  exact hx ⟨_, _, hq⟩

theorem entered_update (hq : (calls q).Entered) (hstage : stage.Entered) :
    (Function.update calls x stage q).Entered := by
  by_cases heq : q = x
  · subst heq
    rw [Function.update_self]
    exact hstage
  · rw [Function.update_of_ne heq]
    exact hq

theorem of_update (hne : stage ≠ stage') (hq : Function.update calls x stage q = stage') :
    calls q = stage' := by
  by_cases heq : q = x
  · subst heq
    rw [Function.update_self] at hq
    exact absurd hq hne
  · rwa [Function.update_of_ne heq] at hq

end update

namespace Represents

theorem fresh : ({} : BaseClient queue D H T).Represents fun _ => (.idle : Stage D H T Msg) where
  drawn_iff q := iff_of_false (fun h => h rfl) (Nat.not_lt_zero _)
  timed h := by cases h
  stub h := absurd h Finmap.notMem_empty
  timeout h := absurd h Finmap.notMem_empty
  queued waitTimer h := by
    have helems : queue.elems ({} : BaseClient queue D H T).mWaitResponseTimerQueue = 0 := queue.elems_empty
    rw [helems] at h
    exact absurd h (Multiset.notMem_zero _)

/-- What has not been entered is in none of the three. -/
theorem absent (h : c.Represents calls) (hx : ¬ (calls x).Entered) :
    x ∉ c.mStubHandleMap ∧ x ∉ c.mTimeoutHandleMap ∧ c.timers x = 0 := by
  refine ⟨fun hmem => hx (h.stub hmem), fun hmem => hx (h.stub (h.timeout hmem).1), ?_⟩
  apply Multiset.eq_zero_of_forall_notMem
  intro waitTimer hmem
  obtain ⟨hqueued, rfl⟩ := mem_timers.mp hmem
  obtain ⟨r, hentered⟩ := h.queued waitTimer hqueued
  exact hx ⟨r, _, hentered⟩

/-- An id that nobody has drawn. -/
theorem idle_nextID (h : c.Represents calls) (hb : c.mSequenceID < 2 ^ 64) :
    calls c.nextID = .idle := by
  by_contra hne
  have hlt := (h.drawn_iff c.nextID).mp hne
  rw [c.toNat_nextID hb] at hlt
  exact absurd hlt (Nat.lt_irrefl _)

/-- Who has drawn an id keeps it. -/
theorem drawn_update (h : c.Represents calls) (hx : calls x ≠ .idle) {stage : Stage D H T Msg}
    (hstage : stage ≠ .idle) (q : UInt64) :
    Function.update calls x stage q ≠ .idle ↔ q.toNat < c.mSequenceID := by
  rw [← h.drawn_iff]
  by_cases heq : q = x
  · subst heq
    rw [Function.update_self]
    exact iff_of_true hstage hx
  · rw [Function.update_of_ne heq]

/-- A call that has not entered anything goes on, and does not enter anything now. -/
theorem move (h : c.Represents calls) (hx : ¬ (calls x).Entered) {c' : BaseClient queue D H T}
    {stage : Stage D H T Msg} (hstub : c'.mStubHandleMap = c.mStubHandleMap)
    (htimeout : c'.mTimeoutHandleMap = c.mTimeoutHandleMap)
    (hqueue : c'.mWaitResponseTimerQueue = c.mWaitResponseTimerQueue)
    (hdrawn : ∀ q, Function.update calls x stage q ≠ .idle ↔ q.toNat < c'.mSequenceID)
    (htimed : ∀ r waitTimer, stage = .timed r waitTimer → waitTimer.mSeqID = x) :
    c'.Represents (Function.update calls x stage) where
  drawn_iff := hdrawn
  timed {q r waitTimer} hq := by
    by_cases heq : q = x
    · subst heq
      rw [Function.update_self] at hq
      exact htimed r waitTimer hq
    · rw [Function.update_of_ne heq] at hq
      exact h.timed hq
  stub hmem := by
    rw [hstub] at hmem
    obtain ⟨r, waitTimer, hentered⟩ := h.stub hmem
    exact ⟨r, waitTimer, update_of_entered hx hentered⟩
  timeout {q} hmem := by
    rw [htimeout] at hmem
    obtain ⟨hmem, r, waitTimer, hentered, hone⟩ := h.timeout hmem
    have htimers : c'.timers q = c.timers q := by
      unfold timers
      rw [hqueue]
    rw [hstub, htimers]
    exact ⟨hmem, r, waitTimer, update_of_entered hx hentered, hone⟩
  queued waitTimer hmem := by
    rw [hqueue] at hmem
    obtain ⟨r, hentered⟩ := h.queued waitTimer hmem
    exact ⟨r, update_of_entered hx hentered⟩

theorem allocate (h : c.Represents calls) (hb : c.allocate.mSequenceID < 2 ^ 64)
    (r : CallRequest D H T Msg) : c.allocate.Represents (Function.update calls c.nextID (.drawn r)) := by
  have hlt : c.mSequenceID < 2 ^ 64 := Nat.lt_of_succ_lt hb
  have hid := c.toNat_nextID hlt
  apply h.move
  · simp [h.idle_nextID hlt, Stage.Entered]
  · rfl
  · rfl
  · rfl
  · intro q
    show _ ↔ q.toNat < c.mSequenceID + 1
    -- the counter moves by one, and the id drawn is the only one that is new
    by_cases heq : q = c.nextID
    · subst heq
      rw [Function.update_self, hid]
      simp
    · have hne : q.toNat ≠ c.mSequenceID := by
        rw [← hid]
        exact fun hsame => heq (UInt64.toNat_inj.mp hsame)
      rw [Function.update_of_ne heq, h.drawn_iff]
      omega
  · intro r' waitTimer hstage
    cases hstage

theorem read (h : c.Represents calls) {r : CallRequest D H T Msg} (hx : calls x = .drawn r)
    {waitTimer : WaitResponseTimer} (hid : waitTimer.mSeqID = x) :
    c.Represents (Function.update calls x (.timed r waitTimer)) := by
  apply h.move
  · simp [hx, Stage.Entered]
  · rfl
  · rfl
  · rfl
  · exact h.drawn_update (by simp [hx]) (by simp)
  · intro r' waitTimer' hstage
    cases hstage
    exact hid

theorem insertUntimed (h : c.Represents calls) {r : CallRequest D H T Msg} (hx : calls x = .drawn r)
    (stub : ResponseStub D H) :
    (c.insertUntimed x stub).Represents (Function.update calls x (.entered r none)) where
  drawn_iff q := h.drawn_update (by simp [hx]) (by simp) q
  timed hq := h.timed (of_update (by simp) hq)
  stub hmem := by
    obtain rfl | hmem := Finmap.mem_insert.mp hmem
    · exact ⟨r, none, Function.update_self _ _ _⟩
    · exact entered_update (h.stub hmem) ⟨r, none, rfl⟩
  timeout hmem := by
    obtain ⟨hstub, r, waitTimer, hentered, hone⟩ := h.timeout hmem
    refine ⟨Finmap.mem_insert.mpr (.inr hstub), r, waitTimer, ?_, hone⟩
    exact update_of_entered (by simp [hx, Stage.Entered]) hentered
  queued waitTimer hmem := by
    obtain ⟨r, hentered⟩ := h.queued waitTimer hmem
    exact ⟨r, update_of_entered (by simp [hx, Stage.Entered]) hentered⟩

theorem insertTimed (h : c.Represents calls) {r : CallRequest D H T Msg} {waitTimer : WaitResponseTimer}
    (hx : calls x = .timed r waitTimer) (stub : ResponseStub D H) (t : TimeoutCallback T) :
    (c.insertTimed x stub t waitTimer).Represents
      (Function.update calls x (.entered r (some waitTimer))) where
  drawn_iff q := h.drawn_update (by simp [hx]) (by simp) q
  timed hq := h.timed (of_update (by simp) hq)
  stub hmem := by
    obtain rfl | hmem := Finmap.mem_insert.mp hmem
    · exact ⟨r, some waitTimer, Function.update_self _ _ _⟩
    · exact entered_update (h.stub hmem) ⟨r, some waitTimer, rfl⟩
  timeout {q} hmem := by
    have hid := h.timed hx
    obtain rfl | hmem := Finmap.mem_insert.mp hmem
    · -- there was no timer of the call before
      have hnone := (h.absent (x := q) (by simp [hx, Stage.Entered])).2.2
      refine ⟨Finmap.mem_insert.mpr (.inl rfl), r, waitTimer, Function.update_self _ _ _, ?_⟩
      rw [timers_insertTimed, if_pos hid, hnone]
      rfl
    · obtain ⟨hstub, r', other, hentered, hone⟩ := h.timeout hmem
      refine ⟨Finmap.mem_insert.mpr (.inr hstub), r', other,
        update_of_entered (by simp [hx, Stage.Entered]) hentered, ?_⟩
      -- the other call has its own timer, which has another id
      have hne : waitTimer.mSeqID ≠ q := by
        rintro rfl
        rw [hid, hx] at hentered
        cases hentered
      rw [timers_insertTimed, if_neg hne, hone]
  queued other hmem := by
    rw [elems_insertTimed, Multiset.mem_cons] at hmem
    obtain rfl | hmem := hmem
    · refine ⟨r, ?_⟩
      rw [h.timed hx, Function.update_self]
    · obtain ⟨r', hentered⟩ := h.queued other hmem
      exact ⟨r', update_of_entered (by simp [hx, Stage.Entered]) hentered⟩

theorem forget (h : c.Represents calls) (q : UInt64) : (c.forget q).Represents calls where
  drawn_iff := h.drawn_iff
  timed := h.timed
  stub hmem := h.stub (Finmap.mem_erase.mp hmem).2
  timeout hmem := by
    obtain ⟨hne, hmem⟩ := Finmap.mem_erase.mp hmem
    obtain ⟨hstub, hone⟩ := h.timeout hmem
    exact ⟨Finmap.mem_erase.mpr ⟨hne, hstub⟩, hone⟩
  queued := h.queued

/-- A timer is dropped whose call does not wait any more. -/
theorem popTimer (h : c.Represents calls) {head : WaitResponseTimer}
    (htop : queue.top c.mWaitResponseTimerQueue = some head) (hnot : head.mSeqID ∉ c.mTimeoutHandleMap) :
    c.popTimer.Represents calls where
  drawn_iff := h.drawn_iff
  timed := h.timed
  stub hmem := h.stub hmem
  timeout {q} hmem := by
    obtain ⟨hstub, r, waitTimer, hentered, hone⟩ := h.timeout hmem
    refine ⟨hstub, r, waitTimer, hentered, ?_⟩
    have hne : head.mSeqID ≠ q := by
      rintro rfl
      exact hnot hmem
    rw [timers_popTimer htop hne, hone]
  queued waitTimer hmem := h.queued waitTimer (Multiset.mem_of_le (elems_popTimer htop) hmem)

theorem rounds {c' : BaseClient queue D H T} {now : Int64} {callbacks : List (UInt64 × TimeoutCallback T)}
    (h : c.Represents calls) (hrounds : Rounds now c c' callbacks) : c'.Represents calls := by
  induction hrounds with
  | stop hlater => exact h
  | @take c c' head t callbacks htop hdue ht _ ih =>
      apply ih
      apply (h.forget head.mSeqID).popTimer htop
      intro hmem
      exact (Finmap.mem_erase.mp hmem).1 rfl
  | @skip c c' head callbacks htop hdue hnone _ ih =>
      apply ih
      apply h.popTimer htop
      exact Finmap.lookup_eq_none.mp hnone

end Represents

end BaseClient

/-! ## Where the sections lead -/

/-- Every section keeps it. -/
theorem ClientSection.represents {o o' : Holding D H T Msg} {h h' : Host queue D H T U}
    {calls : UInt64 → Stage D H T Msg} (hs : ClientSection o h o' h')
    (ho : ∀ x stage, o = some (x, stage) → calls x = stage) (hb : h'.client.mSequenceID < 2 ^ 64)
    (hc : h.client.Represents calls) : h'.client.Represents (record calls o') := by
  cases hs with
  | draw o r h => exact hc.allocate hb r
  | read hr h => exact hc.read (ho _ _ rfl) rfl
  | insertTimed hr h => exact hc.insertTimed (ho _ _ rfl) _ _
  | insertUntimed hr hhandle h => exact hc.insertUntimed (ho _ _ rfl) _
  | takeTimeout o x h =>
      show (h.client.takeTimeout x).Represents calls
      rw [h.client.takeTimeout_eq_forget]
      exact hc.forget x
  | takeResponse o x h =>
      show (h.client.takeResponse x).Represents calls
      rw [h.client.takeResponse_eq_forget]
      exact hc.forget x
  | expire o now h => exact hc.rounds (h.client.expire_rounds now)
  | elsewhere o hclient hclock =>
      rw [hclient]
      exact hc

theorem Reached.represents {h : Host queue D H T U} {calls : UInt64 → Stage D H T Msg}
    (hr : Reached h calls) : h.client.Represents calls := by
  induction hr with
  | fresh clock user => exact .fresh
  | after _ ho hs hb ih => exact hs.represents ho hb ih

/-- The timer of a call ends when its timeout is over, as the call has computed it from the clock. -/
def Stage.Computed (q : UInt64) (clock : Int64) (stage : Stage D H T Msg) : Prop :=
  ∀ r waitTimer, stage = .timed r waitTimer ∨ stage = .entered r (some waitTimer) →
    ∃ timeout timeoutCallback now, r.timed = some (timeout, timeoutCallback) ∧ now ≤ clock ∧
      waitTimer = .start q (WaitResponseTimer.nanoseconds timeout) now

theorem Reached.computed {h : Host queue D H T U} {calls : UInt64 → Stage D H T Msg}
    (hr : Reached h calls) (q : UInt64) : (calls q).Computed q h.clock := by
  induction hr with
  | fresh clock user => simp [Stage.Computed]
  | @after h h' calls o o' _ ho hs hb ih =>
      -- a call that goes on is where it was, or has read the clock
      have hupdate : ∀ {x : UInt64} {stage : Stage D H T Msg}, (q = x → stage.Computed q h.clock) →
          (Function.update calls x stage q).Computed q h.clock := by
        intro x stage hx
        by_cases heq : q = x
        · have hstage := hx heq
          subst heq
          rwa [Function.update_self]
        · rwa [Function.update_of_ne heq]
      cases hs with
      | draw _ r => exact hupdate fun _ => by simp [Stage.Computed]
      | @read x r timeout timeoutCallback hr =>
          refine hupdate fun hq => ?_
          subst hq
          intro r' waitTimer hstage
          obtain ⟨rfl, rfl⟩ : r = r' ∧
              .start q (WaitResponseTimer.nanoseconds timeout) h.clock = waitTimer := by
            simpa using hstage
          exact ⟨timeout, timeoutCallback, h.clock, hr, Int64.le_refl _, rfl⟩
      | @insertTimed x r timeout timeoutCallback waitTimer hr =>
          refine hupdate fun hq => ?_
          subst hq
          -- the timer inserted is the one that was computed when the clock was read
          have htimed := ho _ _ rfl
          intro r' waitTimer' hstage
          obtain ⟨rfl, rfl⟩ : r = r' ∧ waitTimer = waitTimer' := by simpa using hstage
          exact ih r waitTimer (.inl htimed)
      | insertUntimed hr hhandle => exact hupdate fun _ => by simp [Stage.Computed]
      | takeTimeout _ x => exact ih
      | takeResponse _ x => exact ih
      | expire _ now => exact ih
      | elsewhere _ hclient hclock =>
          intro r waitTimer hstage
          obtain ⟨timeout, timeoutCallback, now, hr, hnow, hstart⟩ := ih r waitTimer hstage
          exact ⟨timeout, timeoutCallback, now, hr, Int64.le_trans hnow hclock, hstart⟩

end GayRpc
