import GayRpc.Client.AtMostOnce
import GayRpc.Client.Sections

/-!
# The containers of a client

In every run of a client, whatever its operations are interleaved with, the two maps, the queue and the
counter stand for the calls that there are (`representation_invariant`). A run is one of the section runs
of `Reached`: each thread holds the call that it is in, from when it draws the id to when it enters it.

What a thread holds is not a part of the program, so it is said with `Lib/Holdings`. Each program of a
client is written in sections and begins with what its thread holds (`HoldsCall`), and each section is one
of those in `ClientSection`; so the host and the holdings of all threads are always where some
interleaving of sections has led from a fresh client (`clientExchange_keeps`).

The last part is about insertions: a thread that is about to enter an id holds the call, hence nobody
has entered anything under this id before. That is what the two asserts of `call` ask for.
-/

namespace GayRpc

variable {queue : PriorityQueue WaitResponseTimer WaitResponseTimer.le} {D H T Msg Ctx U : Type}

open Prog Pool

/-- Sections of a client, and the calls that threads hold. -/
def clientExchange : Exchange (Host queue D H T U) (Holding D H T Msg) where
  bound h := h.client.mSequenceID < 2 ^ 64
  nothing := none
  step := ClientSection
  of_nothing h := by
    cases h with
    | draw _ r => exact .draw _ r _
    | takeTimeout _ x => exact .takeTimeout _ x _
    | takeResponse _ x => exact .takeResponse _ x _
    | expire _ now => exact .expire _ now _
    | elsewhere _ hclient hclock => exact .elsewhere _ hclient hclock

/-! ## The operations -/

section holds

variable {o : Holding D H T Msg} (code : ClientCode D H T Msg Ctx U)

/-- Programs of a client are written in sections, and begin with what `o` says. -/
abbrev HoldsCall (o : Holding D H T Msg) {Q A R : Type}
    (p : Prog (Host queue D H T U) (ClientEvent Msg) Q A R) : Prop :=
  Prog.Holds clientExchange o p

theorem holds_onClient {Q A R : Type} {f : BaseClient queue D H T → BaseClient queue D H T}
    {k : Host queue D H T U → Prog (Host queue D H T U) (ClientEvent Msg) Q A R}
    (o' : Host queue D H T U → Holding D H T Msg)
    (hf : ∀ h, ClientSection o h (o' h) (h.mapClient f)) (hk : ∀ h, HoldsCall (o' h) (k h)) :
    HoldsCall o (.act (Host.onClient f) k) := by
  intro h h' hstep _
  obtain rfl : h.mapClient f = h' := Option.some.inj hstep
  exact ⟨o' h, hf h, hk h⟩

theorem holds_lift {Q A R : Type} (p : Prog U Empty Q A R) :
    HoldsCall (none : Holding D H T Msg)
      (p.lift Host.user Host.setUser : Prog (Host queue D H T U) (ClientEvent Msg) Q A R) := by
  apply Prog.Holds.lift
  intro h u
  exact .elsewhere none rfl (Int64.le_refl _)

theorem holds_send (rpcMeta : RpcMeta) (m : Msg) :
    HoldsCall o (sendRequest code rpcMeta m : ClientProg queue D H T Msg U) := by
  have hsent : HoldsCall (none : Holding D H T Msg) (sendRequest code rpcMeta m :
      ClientProg queue D H T Msg U) := by
    show HoldsCall none (Prog.bind _ _)
    exact (holds_lift _).bind fun _ => trivial
  exact hsent.of_nothing

/-- A call holds its id until it has entered it; without a handle or a timeout, it never does. -/
theorem holds_call (r : CallRequest D H T Msg) :
    HoldsCall none (call code r : ClientProg queue D H T Msg U) := by
  refine holds_onClient (fun h => some (h.client.nextID, .drawn r)) (fun h => .draw none r h) fun h => ?_
  cases hr : r.timed with
  | some timed =>
      obtain ⟨timeout, timeoutCallback⟩ := timed
      intro h₁ h₂ hf _
      obtain rfl := Option.some.inj hf
      refine ⟨_, .read hr h₁, ?_⟩
      exact holds_onClient (fun _ => some (h.client.nextID, .entered r (some _)))
        (fun h₂ => .insertTimed hr h₂) fun _ => holds_send code _ r.request
  | none =>
      dsimp only
      by_cases hexpect : r.handle.isSome = true
      · rw [if_pos hexpect]
        exact holds_onClient (fun _ => some (h.client.nextID, .entered r none))
          (fun h₂ => .insertUntimed hr hexpect h₂) fun _ => holds_send code _ r.request
      · -- a call with neither timeout nor handle enters no map, so its id is let go
        rw [if_neg hexpect]
        exact holds_send code _ r.request

theorem holds_runUser (p : Prog U Empty (CallRequest D H T Msg) (Except Exn Unit) (Except Exn Unit)) :
    HoldsCall none (runUser code p : ClientProg queue D H T Msg U) :=
  (holds_lift p).plug (fun _ r => holds_call code r) ()

theorem holds_runTimeout (x : UInt64) (t : TimeoutCallback T) :
    HoldsCall none (runTimeout code x t : ClientProg queue D H T Msg U) := by
  unfold runTimeout
  cases t.callback with
  | none => trivial
  | some callback => exact holds_runUser code _

theorem holds_runStub (x : UInt64) (stub : ResponseStub D H) (rpcMeta : RpcMeta) (data : StringView)
    (context : Ctx) :
    HoldsCall none (runStub code x stub rpcMeta data context : ClientProg queue D H T Msg U) := by
  unfold runStub parseResponseWrapper
  refine Prog.Holds.bind ?_ fun _ => trivial
  cases parseMessage code.codec "response" stub.type rpcMeta.encoding data with
  | error e => trivial
  | ok response =>
      refine (holds_lift _).plug (fun _ args => Prog.Holds.bind ?_ fun r => ?_) ()
      · unfold runHandle
        cases stub.handle with
        | none => trivial
        | some handle => exact holds_runUser code _
      · cases r with
        | ok _ => trivial
        | error _ => trivial

theorem holds_processRpcResponse (rpcMeta : RpcMeta) (data : StringView) (context : Ctx) :
    HoldsCall none (processRpcResponse code rpcMeta data context : ClientProg queue D H T Msg U) := by
  unfold processRpcResponse
  split
  · trivial
  · split
    · refine holds_onClient (fun _ => none) (fun h => .takeTimeout none _ h) fun h => ?_
      cases h.client.mTimeoutHandleMap.lookup rpcMeta.responseInfo.sequenceId with
      | none => trivial
      | some t =>
          dsimp only
          split
          · exact holds_runTimeout code _ t
          · trivial
    · refine holds_onClient (fun _ => none) (fun h => .takeResponse none _ h) fun h => ?_
      cases h.client.mStubHandleMap.lookup rpcMeta.responseInfo.sequenceId with
      | none => trivial
      | some stub => exact holds_runStub code _ stub rpcMeta data context

theorem holds_runCallbacks (callbacks : List (UInt64 × TimeoutCallback T)) :
    HoldsCall none (runCallbacks code callbacks : ClientProg queue D H T Msg U) := by
  induction callbacks with
  | nil => trivial
  | cons p callbacks ih =>
      refine (holds_runTimeout code p.1 p.2).bind fun r => ?_
      cases r with
      | ok _ => exact ih
      | error _ => trivial

theorem holds_checkTimeout : HoldsCall none (checkTimeout code : ClientProg queue D H T Msg U) := by
  intro h h' hf _
  obtain rfl := Option.some.inj hf
  refine ⟨none, .elsewhere none rfl (Int64.le_refl _), ?_⟩
  exact holds_onClient (fun _ => none) (fun h₁ => .expire none h.clock h₁)
    fun _ => holds_runCallbacks code _

end holds

/-! ## Who holds what -/

def heldIds (os : Multiset (Holding D H T Msg)) : Multiset UInt64 := os.filterMap (Option.map Prod.fst)

/-- The sections have led to the host; every call is as far as who holds it has brought it, and is held
only once. -/
structure Keeping (h : Host queue D H T U) (os : Multiset (Holding D H T Msg))
    (calls : UInt64 → Stage D H T Msg) : Prop where
  reached : Reached h calls
  held : ∀ {x stage}, some (x, stage) ∈ os → calls x = stage ∧ stage ≠ .idle
  nodup : (heldIds os).Nodup

theorem heldIds_cons_none (os : Multiset (Holding D H T Msg)) : heldIds (none ::ₘ os) = heldIds os :=
  Multiset.filterMap_cons_none _ _ rfl

theorem heldIds_cons_some (x : UInt64) (stage : Stage D H T Msg) (os : Multiset (Holding D H T Msg)) :
    heldIds (some (x, stage) ::ₘ os) = x ::ₘ heldIds os :=
  Multiset.filterMap_cons_some _ _ _ rfl

theorem mem_heldIds {os : Multiset (Holding D H T Msg)} {x : UInt64} :
    x ∈ heldIds os ↔ ∃ stage, some (x, stage) ∈ os := by
  unfold heldIds
  rw [Multiset.mem_filterMap]
  constructor
  · rintro ⟨_ | ⟨x', stage⟩, hmem, hx⟩
    · cases hx
    · cases hx
      exact ⟨stage, hmem⟩
  · rintro ⟨stage, hmem⟩
    exact ⟨_, hmem, rfl⟩

/-- What is held after a section is a call that was held before, or one that has just been drawn. -/
theorem ClientSection.holder {o : Holding D H T Msg} {h h' : Host queue D H T U} {x : UInt64}
    {stage : Stage D H T Msg} (hs : ClientSection o h (some (x, stage)) h') :
    stage ≠ .idle ∧ ((∃ before, o = some (x, before)) ∨
      (x = h.client.nextID ∧ h'.client.mSequenceID = h.client.mSequenceID + 1)) := by
  cases hs with
  | draw _ r => exact ⟨by simp, .inr ⟨rfl, rfl⟩⟩
  | read hr => exact ⟨by simp, .inl ⟨_, rfl⟩⟩
  | insertTimed hr => exact ⟨by simp, .inl ⟨_, rfl⟩⟩
  | insertUntimed hr hhandle => exact ⟨by simp, .inl ⟨_, rfl⟩⟩

namespace Keeping

variable {h h' : Host queue D H T U} {o o' : Holding D H T Msg} {os : Multiset (Holding D H T Msg)}
  {calls : UInt64 → Stage D H T Msg}

/-- Somebody lets go. -/
theorem drop (hk : Keeping h (o ::ₘ os) calls) : Keeping h os calls := by
  refine ⟨hk.reached, fun hmem => hk.held (Multiset.mem_cons_of_mem hmem), ?_⟩
  have hnodup := hk.nodup
  cases o with
  | none => rwa [heldIds_cons_none] at hnodup
  | some held =>
      rw [heldIds_cons_some held.1 held.2] at hnodup
      exact (Multiset.nodup_cons.mp hnodup).2

theorem nothing (hk : Keeping h os calls) : Keeping h (none ::ₘ os) calls := by
  refine ⟨hk.reached, fun hmem => ?_, ?_⟩
  · obtain hnone | hmem := Multiset.mem_cons.mp hmem
    · cases hnone
    · exact hk.held hmem
  · rw [heldIds_cons_none]
    exact hk.nodup

/-- A call that somebody holds, or that is drawn now, is held by nobody else. -/
theorem notMem (hk : Keeping h (o ::ₘ os) calls) {x : UInt64} {stage : Stage D H T Msg}
    (hs : ClientSection o h (some (x, stage)) h') (hb : h'.client.mSequenceID < 2 ^ 64) :
    x ∉ heldIds os := by
  obtain ⟨-, ⟨before, rfl⟩ | ⟨rfl, hcount⟩⟩ := hs.holder
  · have hnodup := hk.nodup
    rw [heldIds_cons_some] at hnodup
    exact (Multiset.nodup_cons.mp hnodup).1
  · intro hmem
    obtain ⟨stage', hmem⟩ := mem_heldIds.mp hmem
    obtain ⟨heq, hne⟩ := hk.drop.held hmem
    rw [hk.reached.represents.idle_nextID (by omega)] at heq
    exact hne heq.symm

theorem step (hk : Keeping h (o ::ₘ os) calls) (hs : ClientSection o h o' h')
    (hb : h'.client.mSequenceID < 2 ^ 64) : Keeping h' (o' ::ₘ os) (record calls o') := by
  have hreached : Reached h' (record calls o') := by
    refine hk.reached.after (fun x stage ho => ?_) hs hb
    exact (hk.held (by simp [ho])).1
  cases o' with
  | none =>
      have hrest := hk.drop.nothing
      exact ⟨hreached, hrest.held, hrest.nodup⟩
  | some after =>
      obtain ⟨x, stage⟩ := after
      -- the id that the section is about is in nobody else's hands
      have hnot := hk.notMem hs hb
      refine ⟨hreached, fun {y stage'} hmem => ?_, ?_⟩
      · obtain heq | hrest := Multiset.mem_cons.mp hmem
        · cases heq
          exact ⟨Function.update_self _ _ _, hs.holder.1⟩
        · have hne : y ≠ x := by
            rintro rfl
            exact hnot (mem_heldIds.mpr ⟨stage', hrest⟩)
          obtain ⟨heq, hidle⟩ := hk.drop.held hrest
          exact ⟨(Function.update_of_ne hne _ _).trans heq, hidle⟩
      · rw [heldIds_cons_some]
        exact Multiset.nodup_cons.mpr ⟨hnot, hk.drop.nodup⟩

end Keeping

def HeldCalls (h : Host queue D H T U) (os : Multiset (Holding D H T Msg)) : Prop := ∃ calls, Keeping h os calls

/-- Every run of a client is a run of sections. -/
theorem clientExchange_keeps (code : ClientCode D H T Msg Ctx U) :
    clientExchange.Keeps (clientWorld code : World (Host queue D H T U) _ _ _)
      (HeldCalls : _ → Multiset (Holding D H T Msg) → Prop) where
  bound _ hb := hb
  step := by
    rintro o o' s s' os hs hb ⟨calls, hk⟩
    exact ⟨_, hk.step hs hb⟩
  nothing := by
    rintro s os ⟨calls, hk⟩
    exact ⟨calls, hk.nothing⟩
  env := by
    rintro s s' os ⟨hclient, hclock⟩ hb ⟨calls, hk⟩
    exact ⟨calls, (hk.nothing.step (.elsewhere none hclient hclock) hb).drop⟩
  spawn p hp := by
    cases hp with
    | call r => exact holds_call code r
    | processRpcResponse rpcMeta data context => exact holds_processRpcResponse code rpcMeta data context
    | checkTimeout => exact holds_checkTimeout code

theorem held_fresh (clock : Int64) (user : U) :
    (⟨Host.fresh clock user, []⟩ : Pool (Host queue D H T U) (ClientEvent Msg) Empty
      (Except Exn Unit)).Held clientExchange (HeldCalls : _ → Multiset (Holding D H T Msg) → Prop) := by
  refine ⟨[], .nil, fun _ => .idle, .fresh clock user, fun hmem => ?_, ?_⟩
  · simp at hmem
  · exact Multiset.nodup_zero

/-! ## Insertions -/

/-- A sweep enters nothing. -/
theorem BaseClient.Rounds.mem_stub {c c' : BaseClient queue D H T} {now : Int64}
    {callbacks : List (UInt64 × TimeoutCallback T)} (h : BaseClient.Rounds now c c' callbacks) {x : UInt64}
    (hx : x ∈ c'.mStubHandleMap) : x ∈ c.mStubHandleMap := by
  induction h with
  | stop hlater => exact hx
  | take htop hdue ht _ ih => exact (Finmap.mem_erase.mp (ih hx)).2
  | skip htop hdue hnone _ ih => exact ih hx

/-- Who enters an id holds its call. -/
theorem ClientSection.pending_of_mem {o o' : Holding D H T Msg} {h h' : Host queue D H T U} {x : UInt64}
    (hs : ClientSection o h o' h') (hx : x ∈ h'.client.mStubHandleMap) (hnot : x ∉ h.client.mStubHandleMap) :
    ∃ stage, o = some (x, stage) ∧ stage.Pending := by
  -- only the two insertions can make a call pending
  cases hs with
  | draw _ r => exact absurd hx hnot
  | read hr => exact absurd hx hnot
  | insertTimed hr =>
      obtain rfl | hx := Finmap.mem_insert.mp hx
      · exact ⟨_, rfl, trivial⟩
      · exact absurd hx hnot
  | insertUntimed hr hhandle =>
      obtain rfl | hx := Finmap.mem_insert.mp hx
      · exact ⟨_, rfl, trivial⟩
      · exact absurd hx hnot
  | takeTimeout _ y =>
      change x ∈ (h.client.takeTimeout y).mStubHandleMap at hx
      rw [h.client.takeTimeout_eq_forget] at hx
      exact absurd (Finmap.mem_erase.mp hx).2 hnot
  | takeResponse _ y =>
      change x ∈ (h.client.takeResponse y).mStubHandleMap at hx
      rw [h.client.takeResponse_eq_forget] at hx
      exact absurd (Finmap.mem_erase.mp hx).2 hnot
  | expire _ now => exact absurd ((h.client.expire_rounds now).mem_stub hx) hnot
  | elsewhere _ hclient hclock =>
      rw [hclient] at hx
      exact absurd hx hnot

/-- The thread is about to run the section that enters the call `x`. -/
inductive Enters (x : UInt64) : ClientProg queue D H T Msg U → Prop where
  | timed (stub : ResponseStub D H) (t : TimeoutCallback T) (waitTimer : WaitResponseTimer)
      (k : Host queue D H T U → ClientProg queue D H T Msg U) :
      Enters x (.act (Host.onClient (.insertTimed x stub t waitTimer)) k)
  | untimed (stub : ResponseStub D H) (k : Host queue D H T U → ClientProg queue D H T Msg U) :
      Enters x (.act (Host.onClient (.insertUntimed x stub)) k)

/-- Then it holds the call, since it would enter it in a client that nobody has used. -/
theorem Enters.pending {x : UInt64} {p : ClientProg queue D H T Msg U} (hp : Enters x p)
    {o : Holding D H T Msg} (hholds : HoldsCall o p) (user : U) :
    ∃ stage, o = some (x, stage) ∧ stage.Pending := by
  have hzero : (Host.fresh 0 user : Host queue D H T U).client.mSequenceID < 2 ^ 64 := by
    exact Nat.two_pow_pos 64
  cases hp with
  | timed stub t waitTimer k =>
      obtain ⟨o', hs, -⟩ := hholds (Host.fresh 0 user) _ rfl hzero
      exact hs.pending_of_mem (Finmap.mem_insert.mpr (.inl rfl)) Finmap.notMem_empty
  | untimed stub k =>
      obtain ⟨o', hs, -⟩ := hholds (Host.fresh 0 user) _ rfl hzero
      exact hs.pending_of_mem (Finmap.mem_insert.mpr (.inl rfl)) Finmap.notMem_empty

/-- In every run of a client that starts fresh, the sections have led from call to call, and the
containers stand for the calls. What waits with a timeout waits for a response, and has one timer, with the
end that its call has computed. Only ids that were drawn are anywhere, and none that was drawn and not
entered yet. So no call that is about to enter its id finds it there. -/
theorem representation_invariant (code : ClientCode D H T Msg Ctx U) {clock : Int64} {user : U}
    {es : List (ClientEvent Msg)} {b : Pool (Host queue D H T U) (ClientEvent Msg) Empty (Except Exn Unit)}
    (hrun : Run (clientWorld code) ⟨Host.fresh clock user, []⟩ es b) :
    ∃ calls : UInt64 → Stage D H T Msg, Reached b.state calls ∧
      (∀ q ∈ b.state.client.mTimeoutHandleMap, q ∈ b.state.client.mStubHandleMap) ∧
      (∀ q ∈ b.state.client.mTimeoutHandleMap, ∃ r timeout timeoutCallback now,
        r.timed = some (timeout, timeoutCallback) ∧ now ≤ b.state.clock ∧
          calls q = .entered r (some (.start q (WaitResponseTimer.nanoseconds timeout) now)) ∧
          b.state.client.timers q = {.start q (WaitResponseTimer.nanoseconds timeout) now}) ∧
      (∀ q, q ∈ b.state.client.mStubHandleMap ∨ q ∈ b.state.client.mTimeoutHandleMap ∨
        b.state.client.timers q ≠ 0 → q.toNat < b.state.client.mSequenceID) ∧
      (∀ q, (calls q).Pending → q ∉ b.state.client.mStubHandleMap ∧
        q ∉ b.state.client.mTimeoutHandleMap ∧ b.state.client.timers q = 0) ∧
      ∀ p ∈ b.threads, ∀ q, Enters q p → (calls q).Pending ∧ q ∉ b.state.client.mStubHandleMap ∧
        q ∉ b.state.client.mTimeoutHandleMap := by
  obtain ⟨os, ⟨calls, hk⟩, hthreads⟩ :=
    (hrun.held (clientExchange_keeps code) (held_fresh clock user)).exists_holds
  have hc := hk.reached.represents
  refine ⟨calls, hk.reached, fun q hq => (hc.timeout hq).1, fun q hq => ?_, fun q hq => ?_,
    fun q hq => hc.absent hq.not_entered, fun p hp q henters => ?_⟩
  · obtain ⟨-, r, waitTimer, hentered, hone⟩ := hc.timeout hq
    obtain ⟨timeout, timeoutCallback, now, hr, hnow, rfl⟩ :=
      hk.reached.computed q r waitTimer (.inr hentered)
    exact ⟨r, timeout, timeoutCallback, now, hr, hnow, hentered, hone⟩
  · rw [← hc.drawn_iff]
    intro hidle
    -- a call that was never made is in none of the three
    have hnot : ¬ (calls q).Entered := by simp [hidle, Stage.Entered]
    obtain ⟨hstub, htimeout, htimers⟩ := hc.absent hnot
    rcases hq with hq | hq | hq
    · exact hstub hq
    · exact htimeout hq
    · exact hq htimers
  -- a thread that is about to enter a call holds its ticket
  · obtain ⟨o, ho, hholds⟩ := hthreads p hp
    obtain ⟨stage, rfl, hpending⟩ := henters.pending hholds user
    rw [← (hk.held ho).1] at hpending
    obtain ⟨hstub, htimeout, -⟩ := hc.absent hpending.not_entered
    exact ⟨hpending, hstub, htimeout⟩

def callWithTimeout : CallRequest Unit Unit Unit Unit := ⟨(), 1, 2, (), some (), some (10, some ())⟩

/-- It waits, when the clock shows 0. -/
theorem representation_invariant_example : ∃ es b,
    Run (clientWorld plainCode) ⟨(Host.fresh 0 () : PlainHost), []⟩ es b ∧
      0 ∈ b.state.client.mTimeoutHandleMap ∧ 0 ∈ b.state.client.mStubHandleMap ∧
        b.state.client.timers 0 = {⟨10000000000, 0⟩} := by
  have hb : ∀ h : PlainHost, h.client.mSequenceID = 1 → (clientWorld plainCode).bound h := by
    intro h h1
    show h.client.mSequenceID < 2 ^ 64
    rw [h1]
    decide
  have h1 : Run (clientWorld plainCode) ⟨(Host.fresh 0 () : PlainHost), []⟩ []
      ⟨_, [call plainCode callWithTimeout]⟩ := .single (.spawn [] (.call callWithTimeout))
  have h2 := h1.tail (.act [] [] rfl (hb _ rfl))
  have h3 := h2.tail (.act [] [] rfl (hb _ rfl))
  have h4 := h3.tail (.act [] [] rfl (hb _ rfl))
  obtain ⟨calls, -, hstub, -⟩ := representation_invariant plainCode h4
  refine ⟨_, _, h4, ?_, hstub 0 ?_, rfl⟩
  · exact Finmap.mem_insert.mpr (.inl rfl)
  · exact Finmap.mem_insert.mpr (.inl rfl)

end GayRpc
