import GayRpc.Client.Lost
import GayRpc.Client.Owner
import GayRpc.Client.Sweep
import GayRpc.Lib.InTurn

/-!
# What `checkTimeout` does

The section takes the calls along whose time has come (`expire_sweeps`); after it the callbacks of these
calls run, in the order of their deadlines. `checkTimeout_expires` puts the two together, for the states
that a client can be in.

Of the section, `ExpiresDue` says which calls it takes along, in which order, that it takes them out of
both maps, and that it leaves the others where they are, with their timers. It rests on what is true of
every client that is reached: each call that waits with a timeout has one timer in the queue, no more and no
less (`run_timers`). Timers of calls that do not wait any more may be there in any number.

The first callback that throws ends the loop, and one that never comes back holds it up. If each of them
returns normally, the loop comes to its end from wherever it is, whatever the other threads of the process
do meanwhile (`runCallbacks_returns`); and when it has come there, each callback has run, once and in order
(`runCallbacks_shows`).
-/

namespace GayRpc

variable {queue : PriorityQueue WaitResponseTimer WaitResponseTimer.le} {D H T Msg Ctx U : Type}

def ClientEvent.isTimeout : ClientEvent Msg → Bool
  | .timeout _ _ => true
  | _ => false

abbrev ClientEvent.Other (e : ClientEvent Msg) : Prop := e.isTimeout = false

theorem filter_other {es : List (ClientEvent Msg)} (h : ∀ e ∈ es, e.Other) :
    es.filter ClientEvent.isTimeout = [] := by
  apply List.filter_eq_nil_iff.mpr
  intro e he
  simp [h e he]

def Host.Drawn (h h' : Host queue D H T U) : Prop :=
  h.client.mSequenceID ≤ h'.client.mSequenceID

/-! ## The callbacks -/

open Prog Pool

variable (code : ClientCode D H T Msg Ctx U)

section guarantees

theorem callSections_drawn {G : ClientEvent Msg → Prop}
    (hG : ∀ rpcMeta message, G (.request rpcMeta message)) :
    CallSections (fun _ : Host queue D H T U => True) Host.Drawn G where
  request := hG
  setUser _ _ := Nat.le_refl _
  read _ := Nat.le_refl _
  allocate _ := Nat.le_succ _
  insertTimed _ _ _ := Nat.le_refl _
  insertUntimed _ _ _ := Nat.le_refl _

/-- The calls of a callback draw ids, and run no callback. -/
theorem draws_runUser (p : Prog U Empty (CallRequest D H T Msg) (Except Exn Unit) (Except Exn Unit)) :
    (runUser code p : ClientProg queue D H T Msg U).Guarantees (fun _ => True) Host.Drawn
      ClientEvent.Other :=
  (callSections_drawn fun _ _ => rfl).runUser p

theorem shows_runUser (p : Prog U Empty (CallRequest D H T Msg) (Except Exn Unit) (Except Exn Unit)) :
    (runUser code p : ClientProg queue D H T Msg U).Keeps (fun _ => True) ClientEvent.Other :=
  (draws_runUser code p).imp fun _ _ _ => trivial

end guarantees

section shows

variable {code} {env : Host queue D H T U → Host queue D H T U → Prop} {q : UInt64}
  {t : TimeoutCallback T} {callbacks : List (UInt64 × TimeoutCallback T)}
  {l l' : List (ClientProg queue D H T Msg U)} {s s' : Host queue D H T U}
  {es : List (ClientEvent Msg)} {r : Except Exn Unit}

/-- Besides its own event, a callback shows nothing of the kind. -/
theorem runTimeout_shows (h : ReturnsBeside env l (runTimeout code q t) s es r l' s')
    (hl : Show ClientEvent.Other (l.map mute : List (ClientProg queue D H T Msg U))) :
    es.filter ClientEvent.isTimeout = (if t.callback.isSome then [.timeout q t.owner] else []) ∧
      Show ClientEvent.Other (l'.map mute : List (ClientProg queue D H T Msg U)) := by
  unfold runTimeout at h
  cases hcall : t.callback with
  | none =>
      rw [hcall] at h
      obtain ⟨-, hbeside⟩ := returns_ret_iff.mp h
      obtain ⟨hes, hl'⟩ := hbeside.show hl
      exact ⟨by simpa using hes, hl'⟩
  | some callback =>
      rw [hcall] at h
      obtain ⟨es₁, l₁, s₁, es₂, rfl, hbeside, hrest⟩ := returns_emit_iff.mp h
      obtain ⟨hes₁, hl₁⟩ := hbeside.show hl
      obtain ⟨hes₂, hl'⟩ := hrest.show hl₁ (shows_runUser code _)
      refine ⟨?_, hl'⟩
      rw [List.filter_append, filter_other hes₁, List.nil_append,
        List.filter_cons_of_pos (by rfl), filter_other hes₂]
      rfl

/-- When none of the callbacks has thrown, each of them has run, once and in order. -/
theorem runCallbacks_shows (h : ReturnsBeside env l (runCallbacks code callbacks) s es (.ok ()) l' s')
    (hl : Show ClientEvent.Other (l.map mute : List (ClientProg queue D H T Msg U))) :
    es.filter ClientEvent.isTimeout = callbacks.map fun p => .timeout p.1 p.2.owner := by
  induction callbacks generalizing l s es with
  | nil =>
      obtain ⟨-, hbeside⟩ := returns_ret_iff.mp h
      exact filter_other (hbeside.show hl).1
  | cons p callbacks ih =>
      obtain ⟨es₁, x, l₁, s₁, es₂, rfl, hfirst, hrest⟩ := returns_bind_iff.mp h
      obtain ⟨hes₁, hl₁⟩ := runTimeout_shows hfirst hl
      cases x with
      | error e =>
          obtain ⟨hr, -⟩ := returns_ret_iff.mp hrest
          cases hr
      | ok _ =>
          -- an empty callback would have thrown
          have hcall : p.2.callback.isSome := by
            by_contra hnone
            unfold runTimeout at hfirst
            rw [Option.not_isSome_iff_eq_none.mp hnone] at hfirst
            cases (returns_ret_iff.mp hfirst).1
          rw [if_pos hcall] at hes₁
          rw [List.filter_append, hes₁, ih hrest hl₁]
          rfl

/-- The callback is there and returns normally, in a process in which others change the state by `env`. -/
def TimeoutCallback.Fine (env : Host queue D H T U → Host queue D H T U → Prop)
    (code : ClientCode D H T Msg Ctx U) (t : TimeoutCallback T) : Prop :=
  ∃ callback, t.callback = some callback ∧
    AlwaysReturns env (fun r => r = .ok ()) (runUser code (code.timeout callback))

/-- Then the loop returns normally as well. -/
theorem runCallbacks_returns (hfine : ∀ p ∈ callbacks, p.2.Fine env code) :
    AlwaysReturns env (fun r => r = .ok ()) (runCallbacks code callbacks) := by
  induction callbacks with
  | nil => exact .ret rfl
  | cons p callbacks ih =>
      obtain ⟨⟨callback, hcall, hreturns⟩, hrest⟩ := List.forall_mem_cons.mp hfine
      have hfirst : AlwaysReturns env (fun r => r = .ok ()) (runTimeout code p.1 p.2) := by
        unfold runTimeout
        rw [hcall]
        exact hreturns.emit
      apply hfirst.bind
      rintro _ rfl
      exact ih hrest

end shows

/-! ## The calls -/

/-- What a sweep is for that reads `now` off the clock and finds `h`: it leaves the client `c'`, and runs
`callbacks`. -/
structure ExpiresDue (now : Int64) (h : Host queue D H T U)
    (c' : BaseClient queue D H T) (callbacks : List (UInt64 × TimeoutCallback T)) : Prop where
  deadline : ∀ q ∈ h.client.mTimeoutHandleMap, ∃! e, h.client.Deadline q e
  due : ∀ q t, (q, t) ∈ callbacks ↔
    h.client.mTimeoutHandleMap.lookup q = some t ∧ ∃ e, h.client.Deadline q e ∧ e ≤ now
  nodup : (callbacks.map Prod.fst).Nodup
  ordered : callbacks.Pairwise fun p p' => ∀ e e', h.client.Deadline p.1 e → h.client.Deadline p'.1 e' →
    e ≤ e'
  removed : ∀ q ∈ callbacks.map Prod.fst, q ∉ c'.mStubHandleMap ∧ q ∉ c'.mTimeoutHandleMap
  kept : ∀ q, q ∉ callbacks.map Prod.fst →
    c'.mStubHandleMap.lookup q = h.client.mStubHandleMap.lookup q ∧
      c'.mTimeoutHandleMap.lookup q = h.client.mTimeoutHandleMap.lookup q
  timers : ∀ q ∈ c'.mTimeoutHandleMap, c'.timers q = h.client.timers q
  -- the loop over the callbacks: it comes back, and has run all of them by then
  returns : ∀ env : Host queue D H T U → Host queue D H T U → Prop,
    (∀ p ∈ callbacks, p.2.Fine env code) →
      AlwaysReturns env (fun r => r = .ok ()) (runCallbacks code callbacks)
  runs : ∀ (env : Host queue D H T U → Host queue D H T U → Prop) s es s',
    ReturnsIn env (runCallbacks code callbacks) s es (.ok ()) s' →
      es.filter ClientEvent.isTimeout = callbacks.map fun p => .timeout p.1 p.1

section sweeps

variable {c c' : BaseClient queue D H T} {now : Int64} {callbacks : List (UInt64 × TimeoutCallback T)}
  {due : List WaitResponseTimer}

namespace BaseClient.Sweeps

theorem not_mem_of_removed (h : Sweeps now c c' callbacks due) {q : UInt64}
    (hq : q ∈ callbacks.map Prod.fst) : q ∉ c'.mStubHandleMap ∧ q ∉ c'.mTimeoutHandleMap := by
  obtain ⟨hstub, htimeout⟩ := h.removed q hq
  exact ⟨Finmap.lookup_eq_none.mp hstub, Finmap.lookup_eq_none.mp htimeout⟩

/-- The calls that are taken along are those whose time has come. -/
theorem mem_iff (h : Sweeps now c c' callbacks due) {q : UInt64} {t : TimeoutCallback T} :
    (q, t) ∈ callbacks ↔ c.mTimeoutHandleMap.lookup q = some t ∧ ∃ e, c.Deadline q e ∧ e ≤ now := by
  constructor
  · intro hmem
    have ht := h.callback _ hmem
    have hq : q ∈ due.map WaitResponseTimer.mSeqID := by
      rw [← h.ids]
      exact List.mem_map_of_mem hmem
    obtain ⟨timer, htimer, rfl⟩ := List.mem_map.mp hq
    obtain ⟨helem, hle⟩ := h.due timer htimer
    exact ⟨ht, timer.mEndTime, ⟨Finmap.mem_of_lookup_eq_some ht, helem⟩, hle⟩
  · rintro ⟨ht, e, hdeadline, hle⟩
    by_cases hq : q ∈ callbacks.map Prod.fst
    · obtain ⟨⟨q, t'⟩, hmem, rfl⟩ := List.mem_map.mp hq
      have ht' := h.callback _ hmem
      cases ht.symm.trans ht'
      exact hmem
    · -- it would still be waiting, with a timer that is due
      exfalso
      have hkept : q ∈ c'.mTimeoutHandleMap :=
        Finmap.mem_of_lookup_eq_some ((h.kept q hq).2.trans ht)
      have htimer : ⟨e, q⟩ ∈ c'.timers q := by
        rw [h.timers q hkept]
        exact (deadline_iff.mp hdeadline).2
      have hlater := h.later _ (mem_timers.mp htimer).1 hkept
      exact Int64.not_lt.mpr hle hlater

theorem deadline_unique (hone : (c.timers q).card = 1) {e e' : Int64} (he : c.Deadline q e)
    (he' : c.Deadline q e') : e = e' := by
  obtain ⟨timer, htimer⟩ := Multiset.card_eq_one.mp hone
  obtain ⟨-, he⟩ := deadline_iff.mp he
  obtain ⟨-, he'⟩ := deadline_iff.mp he'
  rw [htimer, Multiset.mem_singleton] at he he'
  cases he.trans he'.symm
  rfl

/-- They are taken along in the order of their deadlines. -/
theorem pairwise (h : Sweeps now c c' callbacks due)
    (hone : ∀ q ∈ c.mTimeoutHandleMap, (c.timers q).card = 1) :
    callbacks.Pairwise fun p p' => ∀ e e', c.Deadline p.1 e → c.Deadline p'.1 e' → e ≤ e' := by
  have hdue : due.Pairwise fun timer timer' => ∀ e e', c.Deadline timer.mSeqID e →
      c.Deadline timer'.mSeqID e' → e ≤ e' := by
    apply h.ordered.imp_of_mem
    intro timer timer' hmem hmem' hle e e' he he'
    have hown := deadline_unique (hone _ he.1) he ⟨he.1, (h.due timer hmem).1⟩
    have hown' := deadline_unique (hone _ he'.1) he' ⟨he'.1, (h.due timer' hmem').1⟩
    rw [hown, hown']
    exact hle
  have hids : (callbacks.map Prod.fst).Pairwise fun q q' => ∀ e e', c.Deadline q e →
      c.Deadline q' e' → e ≤ e' := by
    rw [h.ids]
    exact List.pairwise_map.mpr hdue
  exact List.pairwise_map.mp hids

end BaseClient.Sweeps

end sweeps

variable {clock : Int64} {user : U} {es : List (ClientEvent Msg)}
  {b : Pool (Host queue D H T U) (ClientEvent Msg) Empty (Except Exn Unit)}

/-- In the states that a client can be in, the section finds the calls that are due. -/
theorem run_expiresDue (hrun : Pool.Run (clientWorld code) ⟨Host.fresh clock user, []⟩ es b)
    (now : Int64) :
    ExpiresDue code now b.state (b.state.client.expire now).1 (b.state.client.expire now).2 := by
  obtain ⟨hticking, hone⟩ := run_timers code hrun
  obtain ⟨due, hsweeps⟩ := b.state.client.expire_sweeps now
  constructor
  case deadline =>
    intro q hq
    -- the one timer of the call tells its deadline
    obtain ⟨timer, htimer⟩ := Multiset.card_eq_one.mp (hone q hq).1
    have hmem : timer ∈ b.state.client.timers q := by
      rw [htimer]
      exact Multiset.mem_singleton_self timer
    obtain ⟨helem, rfl⟩ := BaseClient.mem_timers.mp hmem
    refine ⟨timer.mEndTime, ⟨hq, helem⟩, ?_⟩
    intro e he
    exact BaseClient.Sweeps.deadline_unique (hone _ hq).1 he ⟨hq, helem⟩
  case due =>
    intro q t
    exact hsweeps.mem_iff
  case nodup => exact hsweeps.nodup
  case ordered => exact hsweeps.pairwise fun q hq => (hone q hq).1
  case removed =>
    intro q hq
    exact hsweeps.not_mem_of_removed hq
  case kept => exact hsweeps.kept
  case timers => exact hsweeps.timers
  case runs =>
    rintro env s es s' ⟨l, h⟩
    -- the loop shows one timeout for each call it has taken, and nothing else
    have hshows := runCallbacks_shows (l := []) h (by simp [Show])
    rw [hshows]
    apply List.map_congr_left
    intro p hp
    rw [hticking.consistent.timeout_owner (hsweeps.callback p hp)]
  case returns => exact fun env => runCallbacks_returns

/-- At any time of any run of a client that starts fresh, and whatever `checkTimeout` reads off the clock:
its section finds the calls whose time has come and leaves the others alone, and after it their callbacks
run, each once, from the earliest deadline to the latest. -/
theorem checkTimeout_expires (hrun : Pool.Run (clientWorld code) ⟨Host.fresh clock user, []⟩ es b)
    (now : Int64) :
    ∃ c' callbacks, ExpiresDue code now b.state c' callbacks ∧
      ∀ h₀ : Host queue D H T U, h₀.clock = now → ∃ p, (checkTimeout code).next h₀ = some ([], h₀, [p]) ∧
        p.next b.state = some ([], { b.state with client := c' }, [runCallbacks code callbacks]) := by
  refine ⟨_, _, run_expiresDue code hrun now, ?_⟩
  rintro h₀ rfl
  exact ⟨_, rfl, rfl⟩

/-- The call with a timeout of ten seconds is due after ten seconds. -/
theorem checkTimeout_expires_example :
    ∃ es b, Pool.Run (clientWorld plainCode) ⟨(Host.fresh 0 () : PlainHost), []⟩ es b ∧
      b.state.client = waitingClient ∧
      ∃ c' callbacks, ExpiresDue plainCode 10000000000 b.state c' callbacks ∧
        (0, { owner := 0, callback := some () }) ∈ callbacks := by
  obtain ⟨es, b, hrun, hb⟩ := waitingClient_reachable
  obtain ⟨c', callbacks, hexpires, -⟩ := checkTimeout_expires plainCode hrun 10000000000
  refine ⟨es, b, hrun, hb, c', callbacks, hexpires, ?_⟩
  have htimeout : waitingClient.mTimeoutHandleMap.lookup 0 =
      some { owner := 0, callback := some () } := Finmap.lookup_insert _
  have hdeadline : waitingClient.Deadline 0 10000000000 := by
    refine ⟨Finmap.mem_of_lookup_eq_some htimeout, ?_⟩
    exact Multiset.mem_coe.mpr (.head _)
  apply (hexpires.due 0 _).mpr
  rw [hb]
  exact ⟨htimeout, _, hdeadline, Int64.le_refl _⟩

end GayRpc
