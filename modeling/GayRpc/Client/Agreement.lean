import GayRpc.Client.Expiry
import GayRpc.Lib.Lockstep
import GayRpc.Utils.Interceptor

/-!
# Two ways to time out

`checkTimeout` takes all calls that are due out of the maps and then runs their callbacks, as far as it
gets. `causeTimeout` delivers a made-up response for one call, takes this call out, runs its callback if
there is one, and lets no exception out. To the callbacks both are the same, since they do not see the maps
(`leaves_deliver_iff`); but the first way ends at a callback that throws (`agree_iff`).

What is compared is what may come of the two: the events that are shown, and the maps at the end. Callbacks
are code of the user, which may make calls and leave threads behind, so that there is no one outcome but a
set of them, and the two ways agree when these sets are the same (`Agree`). The proof goes over a third
way, which neither of the functions takes:

    deliverTimeouts    a delivery for each call, one after the other
    runEach            the callbacks alone, from maps without the calls, each of them, whatever it throws
    runCallbacks       the same, but the first exception ends it

From the first to the second, the maps differ in the calls that have not been delivered yet (`Apart`), and
every program of a client goes the same way from hosts that differ so (`Lockstep`), since it draws new
ids and never looks at old ones. From the second to the third, nothing gets lost just when no exception of a
callback is followed by a callback (`StopsLast`).
-/

namespace GayRpc

variable {queue : PriorityQueue WaitResponseTimer WaitResponseTimer.le} {D H T Msg Ctx U : Type}

/-- Made-up timeouts for the calls, one after the other. -/
def deliverTimeouts (code : ClientCode D H T Msg Ctx U) : List UInt64 → ClientProg queue D H T Msg U
  | [] => .ret (.ok ())
  | q :: qs =>
    (causeTimeout (processRpcResponse code) q code.emptyContext).bind fun _ => deliverTimeouts code qs

/-- Nobody else uses the client. The clock goes on, and the state of the user is anybody's. -/
def Host.Elapses (h h' : Host queue D H T U) : Prop := h'.client = h.client ∧ h.clock ≤ h'.clock

/-- No id has been drawn twice. -/
def Host.InRange (h : Host queue D H T U) : Prop := h.client.mSequenceID < 2 ^ 64

/-- Started in `h`, the program may come to its end with these events and these maps. -/
def Leaves (p : ClientProg queue D H T Msg U) (h : Host queue D H T U) (es : List (ClientEvent Msg))
    (stubs : Finmap fun _ : UInt64 => ResponseStub D H)
    (timeouts : Finmap fun _ : UInt64 => TimeoutCallback T) : Prop :=
  ∃ r h', Pool.ReturnsIn Host.Elapses p h es r h' ∧ h'.InRange ∧
    h'.client.mStubHandleMap = stubs ∧ h'.client.mTimeoutHandleMap = timeouts

/-- The two ways to time out, in `h`, for the calls `due`, if the clock reads `now`. -/
def Agree (code : ClientCode D H T Msg Ctx U) (now : Int64) (h : Host queue D H T U)
    (due : List UInt64) : Prop :=
  ∀ (h₀ : Host queue D H T U) p, h₀.clock = now → (checkTimeout code).next h₀ = some ([], h₀, [p]) →
    ∀ es stubs timeouts, Leaves p h es stubs timeouts ↔ Leaves (deliverTimeouts code due) h es stubs timeouts

/-- When running some of the callbacks one after the other may end with an exception (an empty one being
called is one), all callbacks after them are empty. -/
def StopsLast (code : ClientCode D H T Msg Ctx U) (h : Host queue D H T U)
    (callbacks : List (UInt64 × TimeoutCallback T)) : Prop :=
  ∀ front back, callbacks = front ++ back →
    (∃ es e h', Pool.ReturnsIn Host.Elapses (runCallbacks code front) h es (.error e) h' ∧ h'.InRange) →
      ∀ p ∈ back, p.2.callback = none

def runIfAny (code : ClientCode D H T Msg Ctx U) (received : UInt64) (timeoutCallback : TimeoutCallback T) :
    ClientProg queue D H T Msg U :=
  if timeoutCallback.callback.isSome then runTimeout code received timeoutCallback else .ret (.ok ())

def runEach (code : ClientCode D H T Msg Ctx U) :
    List (UInt64 × TimeoutCallback T) → ClientProg queue D H T Msg U
  | [] => .ret (.ok ())
  | (received, callback) :: callbacks =>
    (runIfAny code received callback).bind fun _ => runEach code callbacks

/-! ## States that look alike -/

def BaseClient.entry (c : BaseClient queue D H T) (q : UInt64) :
    Option (ResponseStub D H) × Option (TimeoutCallback T) :=
  (c.mStubHandleMap.lookup q, c.mTimeoutHandleMap.lookup q)

theorem BaseClient.entry_forget (c : BaseClient queue D H T) (q x : UInt64) :
    (c.forget q).entry x = if x = q then (none, none) else c.entry x := by
  simp only [entry, forget, Finmap.lookup_erase_eq_ite]
  split
  · rfl
  · rfl

theorem BaseClient.entry_insertTimed (c : BaseClient queue D H T) (x : UInt64) (stub : ResponseStub D H)
    (t : TimeoutCallback T) (timer : WaitResponseTimer) (q : UInt64) :
    (c.insertTimed x stub t timer).entry q = if q = x then (some stub, some t) else c.entry q := by
  simp only [entry, insertTimed, Finmap.lookup_insert_eq_ite]
  split
  · rfl
  · rfl

theorem BaseClient.entry_insertUntimed (c : BaseClient queue D H T) (x : UInt64)
    (stub : ResponseStub D H) (q : UInt64) :
    (c.insertUntimed x stub).entry q = if q = x then (some stub, (c.entry q).2) else c.entry q := by
  simp only [entry, insertUntimed, Finmap.lookup_insert_eq_ite]
  split
  · rfl
  · rfl

/-- Two hosts that differ in the calls with ids below `n` only: for those, one holds `i.1` and the other
`i.2`. -/
structure Apart (n : ℕ) (i : (UInt64 → Option (ResponseStub D H) × Option (TimeoutCallback T)) ×
    (UInt64 → Option (ResponseStub D H) × Option (TimeoutCallback T)))
    (s t : Host queue D H T U) : Prop where
  clock : t.clock = s.clock
  user : t.user = s.user
  count : t.client.mSequenceID = s.client.mSequenceID
  drawn : n ≤ s.client.mSequenceID
  inRange : s.InRange
  -- of the calls drawn by then each side has its own entries, of those drawn later the same
  left : ∀ q : UInt64, q.toNat < n → s.client.entry q = i.1 q
  right : ∀ q : UInt64, q.toNat < n → t.client.entry q = i.2 q
  new : ∀ q : UInt64, n ≤ q.toNat → t.client.entry q = s.client.entry q

namespace Apart

variable {n : ℕ} {i : (UInt64 → Option (ResponseStub D H) × Option (TimeoutCallback T)) ×
    (UInt64 → Option (ResponseStub D H) × Option (TimeoutCallback T))} {s t : Host queue D H T U}

theorem symm (h : Apart n i s t) : Apart n i.swap t s where
  clock := h.clock.symm
  user := h.user.symm
  count := h.count.symm
  drawn := h.count.symm ▸ h.drawn
  inRange := by
    rw [Host.InRange, h.count]
    exact h.inRange
  left := h.right
  right := h.left
  new q hq := (h.new q hq).symm

/-- A call that is drawn in both, and entered in both. -/
theorem mapClient (h : Apart n i s t) {f : BaseClient queue D H T → BaseClient queue D H T} (k : ℕ)
    (hcount : ∀ c : BaseClient queue D H T, (f c).mSequenceID = c.mSequenceID + k)
    (hold : ∀ (c : BaseClient queue D H T) (q : UInt64), q.toNat < n → (f c).entry q = c.entry q)
    (hnew : ∀ (c c' : BaseClient queue D H T) (q : UInt64), c'.entry q = c.entry q →
      (f c').entry q = (f c).entry q)
    (hrange : (s.mapClient f).InRange) : Apart n i (s.mapClient f) (t.mapClient f) where
  clock := h.clock
  user := h.user
  count := by
    show (f t.client).mSequenceID = (f s.client).mSequenceID
    rw [hcount, hcount, h.count]
  drawn := by
    show n ≤ (f s.client).mSequenceID
    rw [hcount]
    exact h.drawn.trans (Nat.le_add_right _ k)
  inRange := hrange
  left q hq := (hold _ q hq).trans (h.left q hq)
  right q hq := (hold _ q hq).trans (h.right q hq)
  new q hq := hnew _ _ q (h.new q hq)

theorem nextID (h : Apart n i s t) : t.client.nextID = s.client.nextID :=
  congrArg UInt64.ofNat h.count

/-- When both hold the same for the old calls, the maps are the same. -/
theorem maps_eq {e : UInt64 → Option (ResponseStub D H) × Option (TimeoutCallback T)}
    (h : Apart n (e, e) s t) : t.client.mStubHandleMap = s.client.mStubHandleMap ∧
      t.client.mTimeoutHandleMap = s.client.mTimeoutHandleMap := by
  have hall : ∀ q, t.client.entry q = s.client.entry q := by
    intro q
    rcases Nat.lt_or_ge q.toNat n with hq | hq
    · rw [h.left q hq, h.right q hq]
    · exact h.new q hq
  constructor
  · apply Finmap.ext_lookup
    intro q
    exact congrArg Prod.fst (hall q)
  · apply Finmap.ext_lookup
    intro q
    exact congrArg Prod.snd (hall q)

end Apart

/-! ## Callbacks do not see the maps -/

open Prog Pool

section paces

variable (n : ℕ) (code : ClientCode D H T Msg Ctx U)

theorem backs_of_draws {A Q R : Type} {p : Prog (Host queue D H T U) (ClientEvent Msg) Q A R}
    (h : p.Guarantees (fun _ => True) Host.Drawn ClientEvent.Other) : p.Backs Host.InRange := by
  have hback : p.Guarantees (fun _ => True) (fun s s' => s'.InRange → s.InRange) ClientEvent.Other := by
    apply h.imp
    intro s s' hdrawn hrange
    exact Nat.lt_of_le_of_lt hdrawn hrange
  exact hback.shows fun _ _ => trivial

theorem lockstep_lift {A Q R : Type} (p : Prog U Empty Q A R) :
    (p.lift Host.user Host.setUser : Prog (Host queue D H T U) (ClientEvent Msg) Q A R).Lockstep
      (Apart n) Host.InRange := by
  apply Lockstep.lift
  · intro i s t h
    exact h.user
  · intro i s t u h
    exact ⟨h.clock, rfl, h.count, h.drawn, h.inRange, h.left, h.right, h.new⟩

/-- A call enters itself in both hosts, under an id that is new to both. -/
theorem lockstep_call (r : CallRequest D H T Msg) :
    (call code r : ClientProg queue D H T Msg U).Lockstep (Apart n) Host.InRange := by
  have hsend : ∀ rpcMeta : RpcMeta, (sendRequest code rpcMeta r.request :
      ClientProg queue D H T Msg U).Lockstep (Apart n) Host.InRange := by
    intro rpcMeta
    exact Lockstep.bind (lockstep_lift n _) fun _ => trivial
  -- the id of a new call is none of those that are held apart
  have hold : ∀ {x q : UInt64}, n ≤ x.toNat → q.toNat < n → q ≠ x := by
    rintro x q hx hq rfl
    omega
  intro i s t s' hst hf hrange
  obtain rfl := Option.some.inj hf
  have hid := hst.nextID
  have hx : n ≤ s.client.nextID.toNat := by
    rw [s.client.toNat_nextID hst.inRange]
    exact hst.drawn
  refine ⟨?_, ?_, t.mapClient .allocate, rfl, ?_⟩
  · dsimp only
    rw [hid]
  · cases r.timed with
    | some timed =>
        intro j s₁ t₁ s₂ hst₁ hf₁ _
        obtain rfl := Option.some.inj hf₁
        refine ⟨?_, ?_, t₁, rfl, hst₁⟩
        · dsimp only
          -- both read the same time
          rw [hst₁.clock]
        · intro j' s₃ t₃ s₄ hst₃ hf₃ hrange₃
          obtain rfl := Option.some.inj hf₃
          refine ⟨rfl, hsend _, _, rfl, ?_⟩
          apply hst₃.mapClient 0 _ _ _ hrange₃
          · intro c
            rfl
          · intro c q hq
            rw [BaseClient.entry_insertTimed, if_neg (hold hx hq)]
          · intro c c' q hc
            rw [BaseClient.entry_insertTimed, BaseClient.entry_insertTimed, hc]
    | none =>
        dsimp only
        split
        · intro j s₁ t₁ s₂ hst₁ hf₁ hrange₁
          obtain rfl := Option.some.inj hf₁
          refine ⟨rfl, hsend _, _, rfl, ?_⟩
          apply hst₁.mapClient 0 _ _ _ hrange₁
          · intro c
            rfl
          · intro c q hq
            rw [BaseClient.entry_insertUntimed, if_neg (hold hx hq)]
          · intro c c' q hc
            rw [BaseClient.entry_insertUntimed, BaseClient.entry_insertUntimed, hc]
        · apply hsend
  · exact hst.mapClient 1 (fun _ => rfl) (fun _ _ _ => rfl) (fun _ _ _ h => h) hrange

theorem paces_runUser (p : Prog U Empty (CallRequest D H T Msg) (Except Exn Unit) (Except Exn Unit)) :
    (runUser code p : ClientProg queue D H T Msg U).Paces (Apart n) Host.InRange where
  lockstep := (lockstep_lift n p).plug (fun _ r => lockstep_call n code r) ()
  back := backs_of_draws (draws_runUser code p)

theorem paces_runTimeout (q : UInt64) (t : TimeoutCallback T) :
    (runTimeout code q t : ClientProg queue D H T Msg U).Paces (Apart n) Host.InRange := by
  unfold runTimeout
  cases t.callback with
  | none => exact .ret _
  | some callback => exact .emit _ (paces_runUser n code _)

theorem paces_runCallbacks (callbacks : List (UInt64 × TimeoutCallback T)) :
    (runCallbacks code callbacks : ClientProg queue D H T Msg U).Paces (Apart n) Host.InRange := by
  induction callbacks with
  | nil => exact .ret _
  | cons p callbacks ih =>
      apply (paces_runTimeout n code p.1 p.2).bind
      intro r
      cases r with
      | ok _ => exact ih
      | error e => exact .ret _

theorem elapses_back (s s' : Host queue D H T U) (henv : s.Elapses s') (hrange : s'.InRange) :
    s.InRange := by
  rw [Host.InRange, henv.1] at hrange
  exact hrange

/-- What happens around one host can happen around the other. -/
theorem surrounds_elapses :
    Surrounds (Host.Elapses : Host queue D H T U → Host queue D H T U → Prop) (Apart n) Host.InRange where
  follows i s t s' h henv := by
    obtain ⟨hclient, hclock⟩ := henv
    refine ⟨{ t with clock := s'.clock, user := s'.user }, ⟨rfl, h.clock ▸ hclock⟩, rfl, rfl, ?_, ?_, ?_,
      ?_, h.right, ?_⟩
    · rw [hclient]
      exact h.count
    · rw [hclient]
      exact h.drawn
    · rw [Host.InRange, hclient]
      exact h.inRange
    · rw [hclient]
      exact h.left
    · rw [hclient]
      exact h.new
  back := elapses_back

theorem paces_runIfAny (q : UInt64) (t : TimeoutCallback T) :
    (runIfAny code q t : ClientProg queue D H T Msg U).Paces (Apart n) Host.InRange := by
  unfold runIfAny
  split
  · apply paces_runTimeout
  · exact .ret _

theorem paces_runEach (callbacks : List (UInt64 × TimeoutCallback T)) :
    (runEach code callbacks : ClientProg queue D H T Msg U).Paces (Apart n) Host.InRange := by
  induction callbacks with
  | nil => exact .ret _
  | cons p callbacks ih => exact (paces_runIfAny n code p.1 p.2).bind fun _ => ih

end paces

/-! ## One by one -/

section deliver

variable (code : ClientCode D H T Msg Ctx U)

/-- A delivery takes its call out of the maps, and goes on with what it has found. -/
theorem deliverTimeouts_cons (q : UInt64) (qs : List UInt64) :
    (deliverTimeouts code (q :: qs) : ClientProg queue D H T Msg U) =
      .act (Host.onClient (BaseClient.forget q)) fun h =>
        (afterSection code (timeoutMeta q) { base := [], offset := 0, size := 0 } code.emptyContext h).bind
          fun _ => deliverTimeouts code qs := by
  have htype : (timeoutMeta q).type = .response := rfl
  rw [deliverTimeouts, causeTimeout, processRpcResponse_eq code _ _ _ htype]
  apply congrArg (Prog.act _)
  funext h
  exact bind_assoc _ _ _

theorem afterSection_timeout {q : UInt64} {h : Host queue D H T U} {t : TimeoutCallback T}
    (ht : h.client.mTimeoutHandleMap.lookup q = some t) (data : StringView) (context : Ctx) :
    afterSection code (timeoutMeta q) data context h = runIfAny code q t := by
  have hid : (timeoutMeta q).responseInfo.sequenceId = q := rfl
  have hflag : (timeoutMeta q).responseInfo.timeout = true := rfl
  rw [afterSection, if_pos hflag, hid, ht]
  rfl

theorem backs_afterSection (q : UInt64) (data : StringView) (context : Ctx) (h : Host queue D H T U) :
    (afterSection code (timeoutMeta q) data context h).Backs Host.InRange := by
  obtain ⟨-, t, -, -, hp⟩ | ⟨hflag, -⟩ | ⟨r, hp, -⟩ :=
    afterSection_cases code (timeoutMeta q) data context h
  · rw [hp]
    exact (paces_runTimeout 0 code q t).back
  · cases hflag
  · rw [hp]
    trivial

theorem backs_deliverTimeouts (qs : List UInt64) :
    (deliverTimeouts code qs : ClientProg queue D H T Msg U).Backs Host.InRange := by
  induction qs with
  | nil => trivial
  | cons q qs ih =>
      rw [deliverTimeouts_cons]
      intro h _ h' hh'
      obtain rfl := Option.some.inj hh'
      exact ⟨id, (backs_afterSection code q _ _ h).bind fun _ => ih⟩

variable {code} {n : ℕ}
  {e : UInt64 → Option (ResponseStub D H) × Option (TimeoutCallback T)}
  {callbacks : List (UInt64 × TimeoutCallback T)} {l l' : List (ClientProg queue D H T Msg U)}
  {s s' t : Host queue D H T U} {es : List (ClientEvent Msg)} {r : Except Exn Unit}

def wipe (qs : List UInt64) (e : UInt64 → Option (ResponseStub D H) × Option (TimeoutCallback T)) :
    UInt64 → Option (ResponseStub D H) × Option (TimeoutCallback T) :=
  fun x => if x ∈ qs then (none, none) else e x

theorem wipe_nil : wipe [] e = e := by
  funext x
  simp [wipe]

theorem wipe_cons (q : UInt64) (qs : List UInt64) : wipe (q :: qs) e = wipe qs (wipe [q] e) := by
  funext x
  simp only [wipe, List.mem_cons, List.not_mem_nil, or_false]
  split_ifs <;> simp_all

/-- The calls are pending, drawn before, and each is there once. -/
structure Expires (n : ℕ) (e : UInt64 → Option (ResponseStub D H) × Option (TimeoutCallback T))
    (callbacks : List (UInt64 × TimeoutCallback T)) : Prop where
  drawn : ∀ p ∈ callbacks, p.1.toNat < n
  callback : ∀ p ∈ callbacks, (e p.1).2 = some p.2
  nodup : (callbacks.map Prod.fst).Nodup

theorem Expires.tail {p : UInt64 × TimeoutCallback T} (h : Expires n e (p :: callbacks)) :
    Expires n (wipe [p.1] e) callbacks where
  drawn := (List.forall_mem_cons.mp h.drawn).2
  callback x hx := by
    have hne : x.1 ≠ p.1 := by
      intro heq
      apply (List.nodup_cons.mp h.nodup).1
      rw [← heq]
      exact List.mem_map_of_mem hx
    rw [wipe, if_neg (by simpa using hne)]
    exact h.callback x (.tail _ hx)
  nodup := (List.nodup_cons.mp h.nodup).2

theorem Apart.forget {e' : UInt64 → Option (ResponseStub D H) × Option (TimeoutCallback T)}
    (h : Apart n (e, e') s t) {q : UInt64} (hq : q.toNat < n) :
    Apart n (wipe [q] e, e') (s.mapClient (.forget q)) t where
  clock := h.clock
  user := h.user
  count := h.count
  drawn := h.drawn
  inRange := h.inRange
  left x hx := by
    show (s.client.forget q).entry x = wipe [q] e x
    rw [BaseClient.entry_forget, h.left x hx]
    simp [wipe]
  right := h.right
  new x hx := by
    -- the forgotten id was drawn before the sweep, a new one after it
    have hne : x ≠ q := by
      rintro rfl
      omega
    show t.client.entry x = (s.client.forget q).entry x
    rw [BaseClient.entry_forget, if_neg hne]
    exact h.new x hx

/-- What one by one may do, from a client that holds the calls, the callbacks may do on their own, from a
client that has let go of them all. -/
theorem deliver_runs_each (hexp : Expires n e callbacks)
    (hst : Apart n (e, wipe (callbacks.map Prod.fst) e) s t) (hl : PaceBeside (Apart n) Host.InRange l)
    (h : ReturnsBeside Host.Elapses l (deliverTimeouts code (callbacks.map Prod.fst)) s es r l' s')
    (hrange : s'.InRange) :
    ∃ r' t' e', ReturnsBeside Host.Elapses l (runEach code callbacks) t es r' l' t' ∧
      Apart n (e', e') s' t' := by
  induction callbacks generalizing e l s t es with
  | nil =>
      rw [List.map_nil, wipe_nil] at hst
      obtain ⟨-, t', hrun, hst'⟩ := h.lockstep (surrounds_elapses n) hl (.ret _) hrange hst
      exact ⟨_, t', e, hrun, hst'⟩
  | cons p callbacks ih =>
      obtain ⟨q, callback⟩ := p
      rw [List.map_cons, deliverTimeouts_cons] at h
      obtain ⟨es₁, l₁, s₁, s₂, es₂, rfl, hbeside, hf, hrest⟩ := returns_act_iff.mp h
      obtain rfl := Option.some.inj hf
      have hdrawn := hexp.drawn (q, callback) (.head _)
      -- the end is within the range, and so is all that comes before
      obtain ⟨-, hback₁⟩ := hbeside.back elapses_back hl.back
      have hrange₁ : s₁.InRange := by
        apply (hrest.back elapses_back hback₁ _).1 hrange
        exact (backs_afterSection code q _ _ s₁).bind fun _ => backs_deliverTimeouts code _
      obtain ⟨hl₁, t₁, hbeside', hst₁⟩ := hbeside.lockstep (surrounds_elapses n) hl hrange₁ hst
      -- the delivery finds the call, and takes it out
      have hlook : s₁.client.mTimeoutHandleMap.lookup q = some callback := by
        have hentry := congrArg Prod.snd (hst₁.left q hdrawn)
        exact hentry.trans (hexp.callback _ (.head _))
      rw [afterSection_timeout code hlook] at hrest
      have hst₂ := hst₁.forget hdrawn
      rw [List.map_cons, wipe_cons q (callbacks.map Prod.fst)] at hst₂
      -- then the callback runs, here and there
      obtain ⟨es₃, x, l₃, s₃, es₄, rfl, hfirst, hlater⟩ := returns_bind_iff.mp hrest
      have hpace : (runIfAny code q callback : ClientProg queue D H T Msg U).Paces (Apart n) Host.InRange :=
        paces_runIfAny n code q callback
      obtain ⟨-, hback₃⟩ := hfirst.back elapses_back hback₁ hpace.back
      have hrange₃ := (hlater.back elapses_back hback₃ (backs_deliverTimeouts code _)).1 hrange
      obtain ⟨hl₃, t₃, hfirst', hst₃⟩ := hfirst.lockstep (surrounds_elapses n) hl₁ hpace hrange₃ hst₂
      obtain ⟨r', t', e', hlater', hst'⟩ := ih hexp.tail hst₃ hl₃ hlater
      refine ⟨r', t', e', ?_, hst'⟩
      apply ReturnsBeside.after _ hbeside'
      exact returns_bind_iff.mpr ⟨es₃, x, l₃, t₃, es₄, rfl, hfirst', hlater'⟩

/-- And the other way round. -/
theorem each_delivers (hexp : Expires n e callbacks)
    (hst : Apart n (wipe (callbacks.map Prod.fst) e, e) s t) (hl : PaceBeside (Apart n) Host.InRange l)
    (h : ReturnsBeside Host.Elapses l (runEach code callbacks) s es r l' s') (hrange : s'.InRange) :
    ∃ r' t' e', ReturnsBeside Host.Elapses l (deliverTimeouts code (callbacks.map Prod.fst)) t es r' l' t' ∧
      Apart n (e', e') s' t' := by
  induction callbacks generalizing e l s t es with
  | nil =>
      rw [List.map_nil, wipe_nil] at hst
      obtain ⟨-, t', hrun, hst'⟩ := h.lockstep (surrounds_elapses n) hl (.ret _) hrange hst
      exact ⟨_, t', e, hrun, hst'⟩
  | cons p callbacks ih =>
      obtain ⟨q, callback⟩ := p
      have hdrawn := hexp.drawn (q, callback) (.head _)
      -- no earlier callback has touched this entry, so the response still finds it
      have hlook : t.client.mTimeoutHandleMap.lookup q = some callback := by
        have hentry := congrArg Prod.snd (hst.right q hdrawn)
        exact hentry.trans (hexp.callback _ (.head _))
      -- the sweep has removed the entry already; the response removes it here
      have hst₁ := (hst.symm.forget hdrawn).symm
      rw [Prod.swap_prod_mk, List.map_cons, wipe_cons q (callbacks.map Prod.fst)] at hst₁
      obtain ⟨es₁, x, l₁, s₁, es₂, rfl, hfirst, hlater⟩ := returns_bind_iff.mp h
      have hpace : (runIfAny code q callback : ClientProg queue D H T Msg U).Paces (Apart n) Host.InRange :=
        paces_runIfAny n code q callback
      obtain ⟨-, hback₁⟩ := hfirst.back elapses_back hl.back hpace.back
      have hrange₁ := (hlater.back elapses_back hback₁ (paces_runEach n code callbacks).back).1 hrange
      -- one callback on both sides, in step
      obtain ⟨hl₁, t₁, hfirst', hst₂⟩ := hfirst.lockstep (surrounds_elapses n) hl hpace hrange₁ hst₁
      obtain ⟨r', t', e', hlater', hst'⟩ := ih hexp.tail hst₂ hl₁ hlater
      refine ⟨r', t', e', ?_, hst'⟩
      rw [List.map_cons, deliverTimeouts_cons]
      refine returns_act_iff.mpr ⟨[], l, t, _, es₁ ++ es₂, rfl, .refl, rfl, ?_⟩
      rw [afterSection_timeout code hlook]
      exact returns_bind_iff.mpr ⟨es₁, x, l₁, t₁, es₂, rfl, hfirst', hlater'⟩

end deliver

/-! ## As far as it gets -/

section stops

variable {code : ClientCode D H T Msg Ctx U} {callbacks : List (UInt64 × TimeoutCallback T)}
  {l l' : List (ClientProg queue D H T Msg U)} {s s' t : Host queue D H T U} {es : List (ClientEvent Msg)}

/-- `StopsLast`, with threads beside the callbacks. -/
def StopsBeside (code : ClientCode D H T Msg Ctx U) (l : List (ClientProg queue D H T Msg U))
    (s : Host queue D H T U) (callbacks : List (UInt64 × TimeoutCallback T)) : Prop :=
  ∀ front back, callbacks = front ++ back →
    (∃ es e l' s', ReturnsBeside Host.Elapses l (runCallbacks code front) s es (.error e) l' s' ∧
      s'.InRange) → ∀ p ∈ back, p.2.callback = none

theorem stopsBeside_nil_iff : StopsBeside code [] s callbacks ↔ StopsLast code s callbacks := by
  constructor
  · rintro h front back heq ⟨es, e, s', hrun, hrange⟩
    obtain ⟨l', hrun⟩ := returnsIn_iff.mp hrun
    exact h front back heq ⟨es, e, l', s', hrun, hrange⟩
  · rintro h front back heq ⟨es, e, l', s', hrun, hrange⟩
    exact h front back heq ⟨es, e, s', returnsIn_iff.mpr ⟨l', hrun⟩, hrange⟩

/-- The maps do not matter. -/
theorem StopsLast.of_apart {n : ℕ} {i : (UInt64 → Option (ResponseStub D H) × Option (TimeoutCallback T)) ×
    (UInt64 → Option (ResponseStub D H) × Option (TimeoutCallback T))} (hst : Apart n i s t)
    (h : StopsLast code t callbacks) : StopsLast code s callbacks := by
  rintro front back heq ⟨es, e, s', hrun, hrange⟩
  obtain ⟨l', hrun⟩ := returnsIn_iff.mp hrun
  have hnil : PaceBeside (Apart n) Host.InRange ([] : List (ClientProg queue D H T Msg U)) := by
    simp [PaceBeside]
  obtain ⟨-, t', hrun', hst'⟩ :=
    hrun.lockstep (surrounds_elapses n) hnil (paces_runCallbacks n code front) hrange hst
  exact h front back heq ⟨es, e, t', returnsIn_iff.mpr ⟨l', hrun'⟩, hst'.symm.inRange⟩

theorem runIfAny_of_none {q : UInt64} {t : TimeoutCallback T} (ht : t.callback = none) :
    (runIfAny code q t : ClientProg queue D H T Msg U) = .ret (.ok ()) := by
  simp [runIfAny, ht]

theorem runEach_of_none (h : ∀ p ∈ callbacks, p.2.callback = none) :
    (runEach code callbacks : ClientProg queue D H T Msg U) = .ret (.ok ()) := by
  induction callbacks with
  | nil => rfl
  | cons p callbacks ih =>
      obtain ⟨hp, hrest⟩ := List.forall_mem_cons.mp h
      rw [runEach, runIfAny_of_none hp]
      exact ih hrest

theorem runCallbacks_of_none {p : UInt64 × TimeoutCallback T} (hp : p.2.callback = none) :
    (runCallbacks code (p :: callbacks) : ClientProg queue D H T Msg U) = .ret (.error .badFunctionCall) := by
  rw [runCallbacks, runTimeout, hp]
  rfl

theorem runEach_of_some {p : UInt64 × TimeoutCallback T} (hp : p.2.callback.isSome) :
    (runEach code (p :: callbacks) : ClientProg queue D H T Msg U) =
      (runTimeout code p.1 p.2).bind fun _ => runEach code callbacks := by
  rw [runEach, runIfAny, if_pos hp]

theorem runCallbacks_append (front back : List (UInt64 × TimeoutCallback T)) :
    (runCallbacks code (front ++ back) : ClientProg queue D H T Msg U) =
      (runCallbacks code front).bind fun
        | .ok () => runCallbacks code back
        | .error e => .ret (.error e) := by
  induction front with
  | nil => rfl
  | cons p front ih =>
      rw [List.cons_append, runCallbacks, runCallbacks, bind_assoc]
      apply congrArg (Prog.bind _)
      funext r
      cases r with
      | ok _ => exact ih
      | error e => rfl

/-- What follows the first callback stops as the whole does. -/
theorem StopsBeside.tail {p : UInt64 × TimeoutCallback T} {l₁ : List (ClientProg queue D H T Msg U)}
    {s₁ : Host queue D H T U} (h : StopsBeside code l s (p :: callbacks))
    (hfirst : ReturnsBeside Host.Elapses l (runTimeout code p.1 p.2) s es (.ok ()) l₁ s₁) :
    StopsBeside code l₁ s₁ callbacks := by
  rintro front back rfl ⟨fs, e, l', s', hrun, hrange⟩
  apply h (p :: front) back rfl
  refine ⟨es ++ fs, e, l', s', ?_, hrange⟩
  exact returns_bind_iff.mpr ⟨es, .ok (), l₁, s₁, fs, rfl, hfirst, hrun⟩

/-- After an exception of the first callback there is nothing left to run. -/
theorem StopsBeside.last {p : UInt64 × TimeoutCallback T} {e : Exn}
    {l₁ : List (ClientProg queue D H T Msg U)} {s₁ : Host queue D H T U}
    (h : StopsBeside code l s (p :: callbacks))
    (hfirst : ReturnsBeside Host.Elapses l (runTimeout code p.1 p.2) s es (.error e) l₁ s₁)
    (hrange : s₁.InRange) :
    (runEach code callbacks : ClientProg queue D H T Msg U) = .ret (.ok ()) := by
  apply runEach_of_none
  apply h [p] callbacks rfl
  refine ⟨es, e, l₁, s₁, ?_, hrange⟩
  exact returns_bind_iff.mpr
    ⟨es, .error e, l₁, s₁, [], by simp, hfirst, returns_ret_iff.mpr ⟨rfl, .refl⟩⟩

/-- If nothing comes after an exception, running the callbacks up to the first exception is the same as
running each of them. -/
theorem callbacks_iff_each (hstops : StopsBeside code l s callbacks) (hl : BackBeside Host.InRange l)
    (hrange : s'.InRange) :
    (∃ r, ReturnsBeside Host.Elapses l (runCallbacks code callbacks) s es r l' s') ↔
      ∃ r, ReturnsBeside Host.Elapses l (runEach code callbacks) s es r l' s' := by
  induction callbacks generalizing l s es with
  | nil => exact Iff.rfl
  | cons p callbacks ih =>
      cases hcall : p.2.callback with
      | none =>
          -- the empty one throws on the spot
          have hstop : ∀ {fs l₁ s₁}, Beside Host.Elapses l s fs l₁ s₁ → s₁.InRange →
              (runEach code callbacks : ClientProg queue D H T Msg U) = .ret (.ok ()) := by
            intro fs l₁ s₁ hbeside
            apply hstops.last
            rw [runTimeout, hcall]
            exact returns_ret_iff.mpr ⟨rfl, hbeside⟩
          rw [runCallbacks_of_none hcall, runEach, runIfAny_of_none hcall]
          constructor
          · rintro ⟨r, h⟩
            obtain ⟨-, hbeside⟩ := returns_ret_iff.mp h
            refine ⟨.ok (), ?_⟩
            rw [Prog.bind, hstop hbeside hrange]
            exact returns_ret_iff.mpr ⟨rfl, hbeside⟩
          · rintro ⟨r, h⟩
            -- the one that throws was the last that could be run, so nothing is dropped
            have hrange₁ := (h.back elapses_back hl (paces_runEach 0 code callbacks).back).1 hrange
            rw [Prog.bind, hstop .refl hrange₁] at h
            obtain ⟨-, hbeside⟩ := returns_ret_iff.mp h
            exact ⟨_, returns_ret_iff.mpr ⟨rfl, hbeside⟩⟩
      | some callback =>
          rw [runEach_of_some (by simp [hcall])]
          constructor
          · rintro ⟨r, h⟩
            obtain ⟨es₁, x, l₁, s₁, es₂, rfl, hfirst, hrest⟩ := returns_bind_iff.mp h
            obtain ⟨-, hl₁⟩ := hfirst.back elapses_back hl (paces_runTimeout 0 code p.1 p.2).back
            cases x with
            | ok _ =>
                obtain ⟨r', hrest'⟩ := (ih (hstops.tail hfirst) hl₁).mp ⟨r, hrest⟩
                exact ⟨r', returns_bind_iff.mpr ⟨es₁, _, l₁, s₁, es₂, rfl, hfirst, hrest'⟩⟩
            | error e =>
                obtain ⟨-, hbeside⟩ := returns_ret_iff.mp hrest
                have hrange₁ := (hbeside.back elapses_back hl₁).1 hrange
                refine ⟨.ok (), returns_bind_iff.mpr ⟨es₁, _, l₁, s₁, es₂, rfl, hfirst, ?_⟩⟩
                -- after a callback that throws there is nothing left to run
                rw [hstops.last hfirst hrange₁]
                exact returns_ret_iff.mpr ⟨rfl, hbeside⟩
          · rintro ⟨r, h⟩
            obtain ⟨es₁, x, l₁, s₁, es₂, rfl, hfirst, hrest⟩ := returns_bind_iff.mp h
            obtain ⟨-, hl₁⟩ := hfirst.back elapses_back hl (paces_runTimeout 0 code p.1 p.2).back
            cases x with
            | ok _ =>
                obtain ⟨r', hrest'⟩ := (ih (hstops.tail hfirst) hl₁).mpr ⟨r, hrest⟩
                exact ⟨r', returns_bind_iff.mpr ⟨es₁, _, l₁, s₁, es₂, rfl, hfirst, hrest'⟩⟩
            | error e =>
                have hrange₁ := (hrest.back elapses_back hl₁ (paces_runEach 0 code callbacks).back).1 hrange
                rw [hstops.last hfirst hrange₁] at hrest
                obtain ⟨-, hbeside⟩ := returns_ret_iff.mp hrest
                exact ⟨_, returns_bind_iff.mpr
                  ⟨es₁, _, l₁, s₁, es₂, rfl, hfirst, returns_ret_iff.mpr ⟨rfl, hbeside⟩⟩⟩

/-- Of each callback that there is, the run is shown. -/
theorem runEach_shows {r : Except Exn Unit}
    (h : ReturnsBeside Host.Elapses l (runEach code callbacks) s es r l' s')
    (hl : Show ClientEvent.Other (l.map mute : List (ClientProg queue D H T Msg U)))
    {p : UInt64 × TimeoutCallback T} (hp : p ∈ callbacks) (hcall : p.2.callback.isSome) :
    .timeout p.1 p.2.owner ∈ es := by
  induction callbacks generalizing l s es with
  | nil => cases hp
  | cons p' callbacks ih =>
      obtain ⟨es₁, x, l₁, s₁, es₂, rfl, hfirst, hrest⟩ := returns_bind_iff.mp h
      -- what the other threads show are no timeouts, so this one is of the callback itself
      have hl₁ : Show ClientEvent.Other (l₁.map mute : List (ClientProg queue D H T Msg U)) ∧
          (p = p' → .timeout p.1 p.2.owner ∈ es₁) := by
        unfold runIfAny at hfirst
        split at hfirst
        · next hsome =>
            obtain ⟨hfilter, hl₁⟩ := runTimeout_shows hfirst hl
            refine ⟨hl₁, ?_⟩
            rintro rfl
            rw [if_pos hsome] at hfilter
            apply List.mem_of_mem_filter (p := ClientEvent.isTimeout)
            rw [hfilter]
            exact List.mem_singleton.mpr rfl
        · next hnone =>
            obtain ⟨-, hbeside⟩ := returns_ret_iff.mp hfirst
            refine ⟨(hbeside.show hl).2, ?_⟩
            rintro rfl
            exact absurd hcall hnone
      rcases List.mem_cons.mp hp with heq | hp
      · exact List.mem_append_left _ (hl₁.2 heq)
      · exact List.mem_append_right _ (ih hrest hl₁.1 hp)

/-- No other callbacks run than those of the list. -/
theorem shows_runCallbacks :
    (runCallbacks code callbacks : ClientProg queue D H T Msg U).Keeps (fun _ => True)
      fun e => e.isTimeout = true → ∃ p ∈ callbacks, e = .timeout p.1 p.2.owner := by
  have hsections : CallSections (fun _ : Host queue D H T U => True) (fun _ _ => True)
      fun e : ClientEvent Msg => e.isTimeout = true → ∃ p ∈ callbacks, e = .timeout p.1 p.2.owner := by
    constructor
    case request =>
      intro rpcMeta message htimeout
      cases htimeout
    all_goals
      intros
      trivial
  apply hsections.runCallbacks
  intro p hp _
  exact ⟨p, hp, rfl⟩

/-- If nothing gets lost by stopping at an exception, there was nothing left to run. -/
theorem stopsLast_of_each (hnodup : (callbacks.map Prod.fst).Nodup)
    (h : ∀ es r s', ReturnsIn Host.Elapses (runCallbacks code callbacks) s es r s' → s'.InRange →
      ∃ r' t', ReturnsIn Host.Elapses (runEach code callbacks) s es r' t') :
    StopsLast code s callbacks := by
  rintro front back rfl ⟨es, e, s', hrun, hrange⟩ p hp
  obtain ⟨l', hrun⟩ := returnsIn_iff.mp hrun
  by_contra hcall
  have hstop : ReturnsBeside Host.Elapses [] (runCallbacks code (front ++ back)) s es (.error e) l' s' := by
    rw [runCallbacks_append]
    exact returns_bind_iff.mpr ⟨es, .error e, l', s', [], by simp, hrun, returns_ret_iff.mpr ⟨rfl, .refl⟩⟩
  obtain ⟨r', t', heach⟩ := h es _ s' (returnsIn_iff.mpr ⟨l', hstop⟩) hrange
  obtain ⟨l₁, heach⟩ := returnsIn_iff.mp heach
  -- the callback of `p` runs one way, but not the other
  have hmem : .timeout p.1 p.2.owner ∈ es :=
    runEach_shows heach (by simp [Show]) (List.mem_append_right front hp)
      (Option.isSome_iff_ne_none.mpr hcall)
  obtain ⟨p', hp', heq⟩ := (hrun.show (by simp [Show]) shows_runCallbacks).1 _ hmem rfl
  have hsame : p.1 = p'.1 := (ClientEvent.timeout.inj heq).1
  have hfront : p.1 ∈ front.map Prod.fst := by
    rw [hsame]
    exact List.mem_map_of_mem hp'
  rw [List.map_append] at hnodup
  exact List.disjoint_of_nodup_append hnodup hfront (List.mem_map_of_mem hp)

end stops

/-! ## The two ways -/

/-- The calls that are due, with their callbacks, from the earliest deadline to the latest. -/
structure BaseClient.DueAt (c : BaseClient queue D H T) (now : Int64)
    (callbacks : List (UInt64 × TimeoutCallback T)) : Prop where
  mem_iff : ∀ q t, (q, t) ∈ callbacks ↔
    c.mTimeoutHandleMap.lookup q = some t ∧ ∃ e, c.Deadline q e ∧ e ≤ now
  nodup : (callbacks.map Prod.fst).Nodup
  ordered : callbacks.Pairwise fun p p' => ∀ e e', c.Deadline p.1 e → c.Deadline p'.1 e' → e ≤ e'

section agree

variable (code : ClientCode D H T Msg Ctx U) {now : Int64} {h : Host queue D H T U}
  {callbacks : List (UInt64 × TimeoutCallback T)} {es : List (ClientEvent Msg)}
  {stubs : Finmap fun _ : UInt64 => ResponseStub D H}
  {timeouts : Finmap fun _ : UInt64 => TimeoutCallback T}

/-- Without threads beside a program, only time passes. -/
theorem beside_nil {l : List (ClientProg queue D H T Msg U)} {h' : Host queue D H T U}
    (hbeside : Beside Host.Elapses [] h es l h') : es = [] ∧ l = [] ∧ h.Elapses h' := by
  have hkept : ∀ {a b : Pool (Host queue D H T U) (ClientEvent Msg) Empty (Except Exn Unit)} {es},
      Run (World.drifting Host.Elapses) a es b → a.threads = [] →
        es = [] ∧ b.threads = [] ∧ a.state.Elapses b.state := by
    intro a b es hrun ha
    induction hrun with
    | refl => exact ⟨rfl, ha, rfl, Int64.le_refl _⟩
    | tail _ hs ih =>
        obtain ⟨rfl, hb, hclient, hclock⟩ := ih
        cases hs with
        | thread l r _ _ => simp at hb
        | env ts he _ => exact ⟨rfl, hb, he.1.trans hclient, Int64.le_trans hclock he.2⟩
        | spawn ts hp => exact hp.elim
  obtain ⟨hes, hl, helapses⟩ := hkept hbeside rfl
  exact ⟨hes, List.map_eq_nil_iff.mp hl, helapses⟩

/-- After the section, the callbacks are all there is to do. -/
theorem leaves_sweep_iff : Leaves (.act (Host.onClient fun c => (c.expire now).1) fun h' =>
      runCallbacks code (h'.client.expire now).2) h es stubs timeouts ↔
    Leaves (runCallbacks code (h.client.expire now).2) (h.mapClient fun c => (c.expire now).1) es stubs
      timeouts := by
  constructor
  · rintro ⟨r, h', hrun, hleaves⟩
    obtain ⟨l', hrun⟩ := returnsIn_iff.mp hrun
    obtain ⟨es₁, l₁, h₁, h₂, es₂, rfl, hbeside, hf, hrest⟩ := returns_act_iff.mp hrun
    obtain rfl := Option.some.inj hf
    obtain ⟨rfl, rfl, hclient, hclock⟩ := beside_nil hbeside
    rw [hclient] at hrest
    refine ⟨r, h', returnsIn_iff.mpr ⟨l', ?_⟩, hleaves⟩
    -- the time that has passed before the section passes after it
    have helapses : (h.mapClient fun c => (c.expire now).1).Elapses
        { client := (h.client.expire now).1, clock := h₁.clock, user := h₁.user } := ⟨rfl, hclock⟩
    exact Run.head hrest (.env _ helapses trivial)
  · rintro ⟨r, h', hrun, hleaves⟩
    obtain ⟨l', hrun⟩ := returnsIn_iff.mp hrun
    refine ⟨r, h', returnsIn_iff.mpr ⟨l', ?_⟩, hleaves⟩
    exact returns_act_iff.mpr ⟨[], [], h, _, es, rfl, .refl, rfl, hrun⟩

variable {t : Host queue D H T U} {n : ℕ}
  {e : UInt64 → Option (ResponseStub D H) × Option (TimeoutCallback T)}

theorem leaves_deliver_iff (hexp : Expires n e callbacks)
    (hst : Apart n (wipe (callbacks.map Prod.fst) e, e) t h) :
    Leaves (deliverTimeouts code (callbacks.map Prod.fst)) h es stubs timeouts ↔
      Leaves (runEach code callbacks) t es stubs timeouts := by
  have hnil : PaceBeside (Apart n) Host.InRange ([] : List (ClientProg queue D H T Msg U)) := by
    simp [PaceBeside]
  constructor
  · rintro ⟨r, h', hrun, hrange, rfl, rfl⟩
    obtain ⟨l', hrun⟩ := returnsIn_iff.mp hrun
    obtain ⟨r', t', e', hrun', hst'⟩ := deliver_runs_each hexp hst.symm hnil hrun hrange
    exact ⟨r', t', returnsIn_iff.mpr ⟨l', hrun'⟩, hst'.symm.inRange, hst'.maps_eq⟩
  · rintro ⟨r, t', hrun, hrange, rfl, rfl⟩
    obtain ⟨l', hrun⟩ := returnsIn_iff.mp hrun
    obtain ⟨r', h', e', hrun', hst'⟩ := each_delivers hexp hst hnil hrun hrange
    exact ⟨r', h', returnsIn_iff.mpr ⟨l', hrun'⟩, hst'.symm.inRange, hst'.maps_eq⟩

/-- The callbacks, run as far as it gets or each of them, come to the same just when nothing is left after
an exception. -/
theorem leaves_callbacks_iff (hnodup : (callbacks.map Prod.fst).Nodup) :
    (∀ es stubs timeouts, Leaves (runCallbacks code callbacks) t es stubs timeouts ↔
      Leaves (runEach code callbacks) t es stubs timeouts) ↔ StopsLast code t callbacks := by
  constructor
  · intro hsame
    apply stopsLast_of_each hnodup
    intro es r t' hrun hrange
    obtain ⟨r', t'', hrun', -⟩ := (hsame es _ _).mp ⟨r, t', hrun, hrange, rfl, rfl⟩
    exact ⟨r', t'', hrun'⟩
  · intro hstops es stubs timeouts
    -- both loops give the same events from here
    have hiff : ∀ {l' t'}, t'.InRange →
        ((∃ r, ReturnsBeside Host.Elapses [] (runCallbacks code callbacks) t es r l' t') ↔
          ∃ r, ReturnsBeside Host.Elapses [] (runEach code callbacks) t es r l' t') := by
      intro l' t' hrange
      exact callbacks_iff_each (stopsBeside_nil_iff.mpr hstops) (by simp [BackBeside]) hrange
    constructor
    · rintro ⟨r, t', hrun, hrange, hmaps⟩
      obtain ⟨l', hrun⟩ := returnsIn_iff.mp hrun
      obtain ⟨r', hrun'⟩ := (hiff hrange).mp ⟨r, hrun⟩
      exact ⟨r', t', returnsIn_iff.mpr ⟨l', hrun'⟩, hrange, hmaps⟩
    · rintro ⟨r, t', hrun, hrange, hmaps⟩
      obtain ⟨l', hrun⟩ := returnsIn_iff.mp hrun
      obtain ⟨r', hrun'⟩ := (hiff hrange).mpr ⟨r, hrun⟩
      exact ⟨r', t', returnsIn_iff.mpr ⟨l', hrun'⟩, hrange, hmaps⟩

variable {clock : Int64} {user : U} {fs : List (ClientEvent Msg)}
  {b : Pool (Host queue D H T U) (ClientEvent Msg) Empty (Except Exn Unit)}

/-- In the states that a client can be in, a sweep takes out of the maps what the deliveries take out one
by one. -/
theorem run_apart (hrun : Pool.Run (clientWorld code) ⟨Host.fresh clock user, []⟩ fs b) (now : Int64) :
    Expires b.state.client.mSequenceID b.state.client.entry (b.state.client.expire now).2 ∧
      Apart b.state.client.mSequenceID
        (wipe ((b.state.client.expire now).2.map Prod.fst) b.state.client.entry, b.state.client.entry)
        (b.state.mapClient fun c => (c.expire now).1) b.state := by
  obtain ⟨-, htimers⟩ := run_timers code hrun
  have hexpires := run_expiresDue code hrun now
  have hcount : (b.state.client.expire now).1.mSequenceID = b.state.client.mSequenceID :=
    (b.state.client.expire_rounds now).mSequenceID
  have hrange : b.state.InRange := hrun.bound (Nat.two_pow_pos 64)
  -- what is due has an id that was drawn before
  have hdrawn : ∀ p ∈ (b.state.client.expire now).2, p.1.toNat < b.state.client.mSequenceID := by
    intro p hp
    obtain ⟨-, e, hdeadline, -⟩ := (hexpires.due p.1 p.2).mp hp
    exact (htimers p.1 hdeadline.1).2
  -- and the sweep takes out just this
  have hentry : ∀ q, (b.state.client.expire now).1.entry q =
      wipe ((b.state.client.expire now).2.map Prod.fst) b.state.client.entry q := by
    intro q
    unfold wipe
    split
    · next hq =>
        obtain ⟨hstub, htimeout⟩ := hexpires.removed q hq
        exact Prod.ext (Finmap.lookup_eq_none.mpr hstub) (Finmap.lookup_eq_none.mpr htimeout)
    · next hq =>
        obtain ⟨hstub, htimeout⟩ := hexpires.kept q hq
        exact Prod.ext hstub htimeout
  refine ⟨⟨hdrawn, ?_, hexpires.nodup⟩, rfl, rfl, hcount.symm, hcount.ge, ?_, ?_, ?_, ?_⟩
  · intro p hp
    exact ((hexpires.due p.1 p.2).mp hp).1
  · show (b.state.client.expire now).1.mSequenceID < 2 ^ 64
    rw [hcount]
    exact hrange
  · intro q _
    exact hentry q
  · intro q _
    rfl
  · intro q hq
    have hnew : q ∉ (b.state.client.expire now).2.map Prod.fst := by
      intro hmem
      obtain ⟨p, hp, rfl⟩ := List.mem_map.mp hmem
      exact Nat.not_lt.mpr hq (hdrawn p hp)
    show b.state.client.entry q = (b.state.client.expire now).1.entry q
    rw [hentry, wipe, if_neg hnew]

theorem run_agree_iff (hrun : Pool.Run (clientWorld code) ⟨Host.fresh clock user, []⟩ fs b) (now : Int64) :
    Agree code now b.state ((b.state.client.expire now).2.map Prod.fst) ↔
      StopsLast code b.state (b.state.client.expire now).2 := by
  obtain ⟨hexp, hapart⟩ := run_apart code hrun now
  -- `expire` is one section, and after it only the callbacks are left to compare
  have hsweep : Agree code now b.state ((b.state.client.expire now).2.map Prod.fst) ↔
      ∀ es stubs timeouts, Leaves (.act (Host.onClient fun c => (c.expire now).1) fun h' =>
        runCallbacks code (h'.client.expire now).2) b.state es stubs timeouts ↔
          Leaves (deliverTimeouts code ((b.state.client.expire now).2.map Prod.fst)) b.state es stubs
            timeouts := by
    constructor
    · intro hagree
      exact hagree { b.state with clock := now } _ rfl rfl
    · rintro hsame h₀ p rfl hp
      cases hp
      exact hsame
  have hstops : StopsLast code b.state (b.state.client.expire now).2 ↔
      StopsLast code (b.state.mapClient fun c => (c.expire now).1) (b.state.client.expire now).2 :=
    ⟨StopsLast.of_apart hapart, StopsLast.of_apart hapart.symm⟩
  rw [hsweep, hstops, ← leaves_callbacks_iff code hexp.nodup]
  simp only [leaves_sweep_iff, leaves_deliver_iff code hexp hapart]

theorem run_dueAt (hrun : Pool.Run (clientWorld code) ⟨Host.fresh clock user, []⟩ fs b) (now : Int64) :
    b.state.client.DueAt now (b.state.client.expire now).2 := by
  have hexpires := run_expiresDue code hrun now
  exact ⟨hexpires.due, hexpires.nodup, hexpires.ordered⟩

/-- At any time of any run of a client that starts fresh, and whatever the clock reads: `checkTimeout` and
the timers come to the same for the calls that are due, just when no exception of a callback is followed by
a callback. -/
theorem agree_iff (hrun : Pool.Run (clientWorld code) ⟨Host.fresh clock user, []⟩ fs b) (now : Int64) :
    ∃ callbacks, b.state.client.DueAt now callbacks ∧
      (Agree code now b.state (callbacks.map Prod.fst) ↔ StopsLast code b.state callbacks) :=
  ⟨_, run_dueAt code hrun now, run_agree_iff code hrun now⟩

end agree

/-- One call, whose callback returns. -/
theorem agree_iff_example :
    ∃ fs b, Pool.Run (clientWorld plainCode) ⟨(Host.fresh 0 () : PlainHost), []⟩ fs b ∧
      b.state.client = waitingClient ∧ ∃ callbacks, b.state.client.DueAt 10000000000 callbacks ∧
        Agree plainCode 10000000000 b.state (callbacks.map Prod.fst) := by
  obtain ⟨fs, b, hrun, hb⟩ := waitingClient_reachable
  obtain ⟨callbacks, hdue, hiff⟩ := agree_iff plainCode hrun 10000000000
  refine ⟨fs, b, hrun, hb, callbacks, hdue, hiff.mpr ?_⟩
  rintro front back rfl ⟨es, e, h', hreturns, -⟩
  have hfine : ∀ p ∈ front, p.2.Fine (Host.Elapses : PlainHost → PlainHost → Prop) plainCode := by
    intro p hp
    obtain ⟨ht, -⟩ := (hdue.mem_iff p.1 p.2).mp (List.mem_append_left back hp)
    rw [hb] at ht
    obtain ⟨callback, hcall⟩ := Option.isSome_iff_exists.mp (waitingClient_nonEmpty.timeout ht)
    exact ⟨callback, hcall, .ret rfl⟩
  obtain ⟨l, hreturns⟩ := returnsIn_iff.mp hreturns
  cases (runCallbacks_returns hfine).result hreturns

/-! Two calls that are due, the first of them with an empty callback. -/

def emptyTimedCall : CallRequest Unit Unit Unit Unit := ⟨(), 1, 2, (), some (), some (1, none)⟩

theorem emptyCallback_disagrees :
    ∃ fs b, Pool.Run (clientWorld plainCode) ⟨(Host.fresh 0 () : PlainHost), []⟩ fs b ∧
      ∃ callbacks, b.state.client.DueAt 10000000000 callbacks ∧ callbacks.map Prod.fst = [0, 1] ∧
        ¬ Agree plainCode 10000000000 b.state [0, 1] := by
  have hb : ∀ h : PlainHost, h.client.mSequenceID ≤ 2 → (clientWorld plainCode).bound h := by
    intro h h2
    show h.client.mSequenceID < 2 ^ 64
    omega
  have h1 : Pool.Run (clientWorld plainCode) ⟨(Host.fresh 0 () : PlainHost), []⟩ []
      ⟨_, [call plainCode emptyTimedCall]⟩ := .single (.spawn [] (.call emptyTimedCall))
  have h2 := h1.tail (.act [] [] rfl (hb _ (by decide)))
  have h3 := h2.tail (.act [] [] rfl (hb _ (by decide)))
  have h4 := h3.tail (.act [] [] rfl (hb _ (by decide)))
  have h5 := h4.tail (.spawn _ (.call plainTimedCall))
  have h6 := h5.tail (.act [] _ rfl (hb _ (by decide)))
  have h7 := h6.tail (.act [] _ rfl (hb _ (by decide)))
  have h8 := h7.tail (.act [] _ rfl (hb _ (by decide)))
  refine ⟨_, _, h8, _, run_dueAt plainCode h8 _, rfl, ?_⟩
  -- the first callback is empty and ends the loop, so the second call is never told
  intro hagree
  have hstops := (run_agree_iff plainCode h8 10000000000).mp hagree
  have hcall := hstops [(0, ⟨0, none⟩)] [(1, ⟨1, some ()⟩)] rfl
    ⟨[], .badFunctionCall, _, returnsIn_iff.mpr ⟨[], .refl⟩, hb _ (by decide)⟩ _ (.head _)
  cases hcall

end GayRpc
