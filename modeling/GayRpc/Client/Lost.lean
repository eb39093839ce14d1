import GayRpc.Client.AtMostOnce
import GayRpc.Lib.Duty

/-!
# Calls that are lost

`processRpcResponse` erases a call from the maps before it knows whether it can tell the caller
anything. A timed-out response for a call without a timeout, and a response whose body does not
parse, leave nobody behind who could still be notified. `Answers` says which responses do not lose a
call, and `answers_iff` that it says so exactly: of every single response in any reachable state, and
of whole runs.

For a single response, what runs after the section is what the section has found (`afterSection_cases`):
a timeout callback, a stub, or nothing at all. A response that does not answer comes to the last of these,
or to a stub whose body does not parse.

For runs there is a duty. A call must stay pending until one of its callbacks is run, and a thread that has
taken it out of the map has the callback in hand. Where every response answers, and no callback of a sweep
ends the loop, nobody lets go of it; so when no operation is under way, each call has run a callback, or
is pending in both maps, or was one that waits for nothing (`ran_or_pending`).
-/

namespace GayRpc

variable {queue : PriorityQueue WaitResponseTimer WaitResponseTimer.le} {D H T Msg Ctx U : Type}

namespace BaseClient

variable {c : BaseClient queue D H T} {q : UInt64}

/-- No pending call has an empty handle or timeout callback. -/
structure NonEmpty (c : BaseClient queue D H T) : Prop where
  stub : ∀ {q stub}, c.mStubHandleMap.lookup q = some stub → stub.handle.isSome
  timeout : ∀ {q t}, c.mTimeoutHandleMap.lookup q = some t → t.callback.isSome

theorem NonEmpty.forget (h : c.NonEmpty) (q : UInt64) : (c.forget q).NonEmpty :=
  ⟨fun hx => h.stub (Finmap.of_lookup_erase hx).2, fun hx => h.timeout (Finmap.of_lookup_erase hx).2⟩

/-- A sweep takes a pending call along or leaves it where it is. -/
theorem NonEmpty.rounds {c' : BaseClient queue D H T} {now : Int64}
    {callbacks : List (UInt64 × TimeoutCallback T)} (hc : c.NonEmpty) (h : Rounds now c c' callbacks) :
    c'.NonEmpty ∧ (∀ p ∈ callbacks, p.2.callback.isSome) ∧
      ∀ q ∈ c.mStubHandleMap, q ∈ c'.mStubHandleMap ∨ ∃ p ∈ callbacks, p.1 = q := by
  induction h with
  | stop hlater => exact ⟨hc, by simp, fun q hq => .inl hq⟩
  | @take c c' head t callbacks htop hdue ht _ ih =>
      obtain ⟨hne, hall, hmem⟩ := ih ⟨(hc.forget _).stub, (hc.forget _).timeout⟩
      refine ⟨hne, List.forall_mem_cons.mpr ⟨hc.timeout ht, hall⟩, fun q hq => ?_⟩
      by_cases hhead : head.mSeqID = q
      · exact .inr ⟨(head.mSeqID, t), List.mem_cons_self, hhead⟩
      · have hq' : q ∈ (c.forget head.mSeqID).popTimer.mStubHandleMap :=
          Finmap.mem_erase.mpr ⟨Ne.symm hhead, hq⟩
        obtain hleft | ⟨p, hp, hpq⟩ := hmem q hq'
        · exact .inl hleft
        · exact .inr ⟨p, List.mem_cons_of_mem _ hp, hpq⟩
  | skip htop hdue hnone _ ih => exact ih ⟨hc.stub, hc.timeout⟩

end BaseClient

/-- The response loses no call: nothing is pending under its id, or it is a timed-out response for a
call that has a timeout callback, or its encoding is known and its body parses as the response type
of the call. -/
def Answers (code : ClientCode D H T Msg Ctx U) (rpcMeta : RpcMeta) (data : StringView)
    (h : Host queue D H T U) : Prop :=
  rpcMeta.responseInfo.sequenceId ∉ h.client.mStubHandleMap ∨
  (rpcMeta.responseInfo.timeout = true ∧
    rpcMeta.responseInfo.sequenceId ∈ h.client.mTimeoutHandleMap) ∨
  (rpcMeta.responseInfo.timeout = false ∧ ∃ stub message,
    h.client.mStubHandleMap.lookup rpcMeta.responseInfo.sequenceId = some stub ∧
      parseMessage code.codec "response" stub.type rpcMeta.encoding data = .ok message)

/-- Fewer than `2 ^ 64` calls, and none with an empty callback. -/
def Host.Within (h : Host queue D H T U) : Prop := h.client.mSequenceID < 2 ^ 64 ∧ h.client.NonEmpty

/-- Whenever processing the response takes a call out of `mStubHandleMap`, it also runs a callback of
that call: so it is when the processing, and all it has started, is over. -/
def LosesNothing (code : ClientCode D H T Msg Ctx U) (rpcMeta : RpcMeta) (data : StringView)
    (context : Ctx) (h : Host queue D H T U) : Prop :=
  ∀ es b, Pool.Run (World.alone Host.Within) ⟨h, [processRpcResponse code rpcMeta data context]⟩ es b →
    (∀ p ∈ b.threads, p.Done) → ∀ q ∈ h.client.mStubHandleMap, q ∉ b.state.client.mStubHandleMap →
      ∃ e ∈ es, e.runs = some q

/-- A request of the call `q` that asks for no response. -/
def ClientEvent.OneWay (q : UInt64) : ClientEvent Msg → Prop
  | request rpcMeta _ =>
    rpcMeta.requestInfo.sequenceId = q ∧ rpcMeta.requestInfo.expectResponse = false
  | handle _ _ _ _ => False
  | timeout _ _ => False

open Prog

/-- The call `q` must stay pending until one of its callbacks is run. With `new`, it may also not
have been made yet, or turn out to want no response. -/
def callDuty (q : UInt64) (new : Prop) : Duty (Host queue D H T U) (ClientEvent Msg) where
  inv h := h.client.Consistent ∧ h.client.NonEmpty
  bound := Host.Within
  safe h := q ∈ h.client.mStubHandleMap ∨ (new ∧ h.client.mSequenceID ≤ q.toNat)
  settles e := e.runs = some q ∨ (new ∧ e.OneWay q)

section discharges

variable {q : UInt64} {new : Prop} (code : ClientCode D H T Msg Ctx U)

/-- A section that keeps every pending call in its map, or hands the call `q` to what follows. -/
theorem discharges_onClient {o : Prop} {f : BaseClient queue D H T → BaseClient queue D H T}
    {k : Host queue D H T U → ClientProg queue D H T Msg U} (o' : Host queue D H T U → Prop)
    (hinv : ∀ h : Host queue D H T U, h.client.Consistent → (f h.client).Consistent)
    (hsafe : ∀ h : Host queue D H T U, (f h.client).mSequenceID < 2 ^ 64 → h.client.NonEmpty →
      (o ∨ q ∈ h.client.mStubHandleMap ∨ (new ∧ h.client.mSequenceID ≤ q.toNat)) →
      (q ∈ (f h.client).mStubHandleMap ∨ (new ∧ (f h.client).mSequenceID ≤ q.toNat)) ∨ o' h)
    (hk : ∀ h : Host queue D H T U, h.client.Consistent → h.client.NonEmpty →
      Discharges (callDuty q new) (o' h) (k h)) :
    Discharges (callDuty q new) o (.act (Host.onClient f) k) := by
  intro h h' hs hb hf
  obtain rfl := Option.some.inj hf
  exact ⟨⟨hinv h hs.1, hb.2⟩, o' h, hsafe h hb.1 hs.2, hk h hs.1 hs.2⟩

theorem discharges_lift {R : Type} {p : Prog U Empty Empty Empty R} :
    Discharges (callDuty q new : Duty (Host queue D H T U) (ClientEvent Msg)) False
      (p.lift Host.user Host.setUser) :=
  .lift (fun _ _ h => h) fun _ _ h => h

/-- A `call` makes itself pending, or says that it wants no response. -/
theorem discharges_call (r : CallRequest D H T Msg) :
    Discharges (callDuty q new : Duty (Host queue D H T U) _) False (call code r) := by
  refine discharges_onClient (fun h => new ∧ h.client.nextID = q) (fun h hs => hs.allocate)
    (fun h hb _ ho => ?_) fun h _ _ => ?_
  -- the id that is drawn: either it is `q`, or `q` is still to come
  · have hid := h.client.toNat_nextID (Nat.lt_of_succ_lt hb)
    have hcount : h.client.allocate.mSequenceID = h.client.mSequenceID + 1 := rfl
    have hstub : h.client.allocate.mStubHandleMap = h.client.mStubHandleMap := rfl
    rw [hcount, hstub]
    rcases ho with hf | hq | ⟨hnew, hle⟩
    · exact hf.elim
    · exact .inl (.inl hq)
    · by_cases heq : h.client.nextID = q
      · exact .inr ⟨hnew, heq⟩
      · have hne : h.client.mSequenceID ≠ q.toNat := by
          intro h'
          exact heq (UInt64.toNat.inj (hid.trans h'))
        exact .inl (.inr ⟨hnew, by omega⟩)
  -- on its way out the request settles what is left
  · have hsend : ∀ (o : Prop) (rpcMeta : RpcMeta),
        (o → (callDuty q new : Duty (Host queue D H T U) _).settles (.request rpcMeta r.request)) →
        Discharges (callDuty q new : Duty (Host queue D H T U) _) o
          (sendRequest code rpcMeta r.request) := by
      intro o rpcMeta hsettles
      exact ⟨False, fun ho => .inl (hsettles ho), discharges_lift.bind fun _ => id⟩
    cases r.timed with
    | some timed =>
        intro h₁ h₂ hs₁ hb₂ hf
        obtain rfl := Option.some.inj hf
        refine ⟨hs₁, new ∧ h.client.nextID = q, Or.symm, ?_⟩
        refine discharges_onClient (fun _ => False)
          (fun h₂ hs₂ => hs₂.insertTimed (by rfl) (by rfl) _) (fun h₂ _ _ ho => .inl ?_)
          fun _ _ _ => hsend _ _ False.elim
        rcases ho with ⟨-, rfl⟩ | hq | hle
        · exact .inl (Finmap.mem_insert.mpr (.inl rfl))
        · exact .inl (Finmap.mem_insert.mpr (.inr hq))
        · exact .inr hle
    | none =>
        dsimp only
        by_cases hexpect : r.handle.isSome = true
        · rw [if_pos hexpect]
          refine discharges_onClient (fun _ => False)
            (fun h₂ hs₂ => hs₂.insertUntimed (by rfl) (by rfl)) (fun h₂ _ _ ho => .inl ?_)
            fun _ _ _ => hsend _ _ False.elim
          rcases ho with ⟨-, rfl⟩ | hq | hle
          · exact .inl (Finmap.mem_insert.mpr (.inl rfl))
          · exact .inl (Finmap.mem_insert.mpr (.inr hq))
          · exact .inr hle
        · rw [if_neg hexpect]
          refine hsend _ _ fun ho => .inr ⟨ho.1, ?_, ?_⟩
          · exact ho.2
          · simpa [makeRequestRpcMeta] using hexpect

theorem discharges_runUser
    (p : Prog U Empty (CallRequest D H T Msg) (Except Exn Unit) (Except Exn Unit)) :
    Discharges (callDuty q new : Duty (Host queue D H T U) _) False (runUser code p) :=
  .lift_plug (fun _ _ h => h) (fun _ _ h => h) fun _ r => discharges_call code r

theorem discharges_runTimeout {received : UInt64} {t : TimeoutCallback T} (ht : t.owner = received)
    (hne : t.callback.isSome) :
    Discharges (callDuty q new : Duty (Host queue D H T U) _) (received = q)
      (runTimeout code received t) := by
  obtain ⟨callback, hcall⟩ := Option.isSome_iff_exists.mp hne
  simp only [runTimeout, hcall]
  refine ⟨False, fun ho => .inl (.inl ?_), discharges_runUser code _⟩
  rw [ClientEvent.runs, ht, ho]

theorem discharges_runHandle {received : UInt64} {stub : ResponseStub D H}
    (hs : stub.owner = received) (hne : stub.handle.isSome) (message : Msg) (error : Option RpcError) :
    Discharges (callDuty q new : Duty (Host queue D H T U) _) (received = q)
      (runHandle code received stub message error) := by
  obtain ⟨handle, hcall⟩ := Option.isSome_iff_exists.mp hne
  simp only [runHandle, hcall]
  refine ⟨False, fun ho => .inl (.inl ?_), discharges_runUser code _⟩
  rw [ClientEvent.runs, hs, ho]

/-- Without inbound interceptors, a stub calls its handle if the response parses. -/
theorem discharges_runStub (hin : code.inbound = makeInterceptor []) {received : UInt64}
    {stub : ResponseStub D H} (hs : stub.owner = received) (hne : stub.handle.isSome)
    {rpcMeta : RpcMeta} {data : StringView} {message : Msg}
    (hparse : parseMessage code.codec "response" stub.type rpcMeta.encoding data = .ok message)
    (context : Ctx) :
    Discharges (callDuty q new : Duty (Host queue D H T U) _) (received = q)
      (runStub code received stub rpcMeta data context) := by
  have hthrough : (code.mInboundInterceptor : UnaryServerInterceptor (Host queue D H T U) _ _ _) =
      fun args => .ask args .ret := by
    funext args
    rw [ClientCode.mInboundInterceptor, hin]
    rfl
  simp only [runStub, parseResponseWrapper, hparse, hthrough]
  refine Discharges.bind (Discharges.bind (Discharges.bind
    (discharges_runHandle code hs hne message _) fun r => ?_) fun _ => id) fun _ => id
  cases r with
  | ok _ => exact id
  | error _ => exact id

/-- A response that answers has the call in hand when it has taken it out of the map. -/
theorem discharges_afterSection (hin : code.inbound = makeInterceptor []) {rpcMeta : RpcMeta}
    {data : StringView} (context : Ctx) {h : Host queue D H T U} (hs : h.client.Consistent)
    (hne : h.client.NonEmpty) (hanswers : Answers code rpcMeta data h) :
    Discharges (callDuty q new : Duty (Host queue D H T U) _)
      (rpcMeta.responseInfo.sequenceId = q ∧
        rpcMeta.responseInfo.sequenceId ∈ h.client.mStubHandleMap)
      (afterSection code rpcMeta data context h) := by
  obtain ⟨-, t, ht, hcall, hp⟩ | ⟨hflag, stub, hstub, hp⟩ | ⟨r, hp, htimeout, hstub⟩ :=
    afterSection_cases code rpcMeta data context h
  · rw [hp]
    exact (discharges_runTimeout code (hs.timeout_owner ht) hcall).mono fun ho => ho.1
  · rw [hp]
    -- the response comes with a handle for the stub and a body that parses
    obtain hnot | ⟨htrue, -⟩ | ⟨-, stub', message, hstub', hparse⟩ := hanswers
    · exact absurd (Finmap.mem_of_lookup_eq_some hstub) hnot
    · rw [hflag] at htrue
      cases htrue
    · obtain rfl := Option.some.inj (hstub.symm.trans hstub')
      exact (discharges_runStub code hin (hs.stub_owner hstub) (hne.stub hstub) hparse context).mono
        fun ho => ho.1
  · rw [hp]
    -- nothing is run here, which `hanswers` shuts out in each of its cases
    rintro ⟨-, hmem⟩
    obtain hnot | ⟨hflag, hmem⟩ | ⟨hflag, stub, message, hstub', -⟩ := hanswers
    · exact hnot hmem
    · obtain ⟨t, ht⟩ := Finmap.mem_iff.mp hmem
      have hsome := hne.timeout ht
      rw [htimeout hflag t ht] at hsome
      cases hsome
    · rw [hstub hflag] at hstub'
      cases hstub'

/-- Code of the user that comes back: the interceptors on the way out with whatever result, and the
timeout callbacks without an exception. -/
structure ClientCode.ComesBack (code : ClientCode D H T Msg Ctx U) : Prop where
  outbound : ∀ args, Returns (fun _ => True) (code.outbound args)
  timeout : ∀ t, Returns (fun r => r = .ok ()) (code.timeout t)

variable {code}

theorem returns_call (hback : code.ComesBack) (r : CallRequest D H T Msg) :
    Returns (fun _ => True) (call code r : ClientProg queue D H T Msg U) := by
  intro h
  have hsend : ∀ rpcMeta : RpcMeta, Returns (fun _ => True)
      (sendRequest code rpcMeta r.request : ClientProg queue D H T Msg U) := by
    intro rpcMeta
    -- the outbound chain comes back whatever its inner handler does
    have hchain : Returns (fun _ => True) (code.outbound.call emptyHandler
        { rpcMeta := rpcMeta, message := r.request, context := code.emptyContext }) :=
      (hback.outbound _).plug fun _ _ => trivial
    exact hchain.lift.bind fun _ _ => trivial
  cases r.timed with
  | some timed =>
      intro h₁ h₂
      exact hsend _
  | none =>
      dsimp only
      split
      · intro h₁
        exact hsend _
      · exact hsend _

theorem returns_runTimeout (hback : code.ComesBack) (received : UInt64) {t : TimeoutCallback T}
    (hne : t.callback.isSome) :
    Returns (fun r => r = .ok ()) (runTimeout code received t : ClientProg queue D H T Msg U) := by
  obtain ⟨callback, hcall⟩ := Option.isSome_iff_exists.mp hne
  simp only [runTimeout, hcall]
  exact (hback.timeout callback).lift.plug fun _ r => returns_call hback r

/-- The callbacks of a sweep are all run, the first one first. -/
theorem discharges_runCallbacks (hback : code.ComesBack)
    (callbacks : List (UInt64 × TimeoutCallback T))
    (h : ∀ p ∈ callbacks, p.2.owner = p.1 ∧ p.2.callback.isSome) :
    Discharges (callDuty q new : Duty (Host queue D H T U) _) (∃ p ∈ callbacks, p.1 = q)
      (runCallbacks code callbacks) := by
  induction callbacks with
  | nil => exact fun ⟨p, hp, _⟩ => by cases hp
  | cons p callbacks ih =>
      obtain ⟨⟨howner, hne⟩, hps⟩ := List.forall_mem_cons.mp h
      have hfirst : Discharges (callDuty q new : Duty (Host queue D H T U) _) (p.1 = q)
          (runTimeout code p.1 p.2) := discharges_runTimeout code howner hne
      have hall : Discharges (callDuty q new : Duty (Host queue D H T U) _)
          (p.1 = q ∨ ∃ p ∈ callbacks, p.1 = q) (runCallbacks code (p :: callbacks)) := by
        refine hfirst.bind_returns (returns_runTimeout hback p.1 hne) fun r hr => ?_
        subst hr
        exact ih hps
      exact hall.mono fun ho => by simpa using ho

theorem discharges_checkTimeout (hback : code.ComesBack) :
    Discharges (callDuty q new : Duty (Host queue D H T U) _) False (checkTimeout code) := by
  intro h h' hs _ hf
  obtain rfl := Option.some.inj hf
  refine ⟨hs, False, Or.symm, ?_⟩
  refine discharges_onClient (fun h₁ => ∃ p ∈ (h₁.client.expire h.clock).2, p.1 = q)
    (fun h₁ hs₁ => (hs₁.rounds (BaseClient.expire_rounds _ _)).1) (fun h₁ _ hne ho => ?_)
    fun h₁ hs₁ hne₁ => ?_
  · have hrounds := h₁.client.expire_rounds h.clock
    obtain ⟨-, -, hmem⟩ := hne.rounds hrounds
    -- pending before the sweep: still pending, or among those it has taken
    rcases ho with hf | hq | ⟨hnew, hle⟩
    · exact hf.elim
    · rcases hmem q hq with hq | hp
      · exact .inl (.inl hq)
      · exact .inr hp
    · exact .inl (.inr ⟨hnew, hrounds.mSequenceID.symm ▸ hle⟩)
  · have hrounds := h₁.client.expire_rounds h.clock
    refine discharges_runCallbacks hback _ fun p hp => ⟨?_, ?_⟩
    · exact (hs₁.rounds hrounds).2 p hp
    · exact (hne₁.rounds hrounds).2.1 p hp

end discharges

/-! ## Exactly the responses that answer lose nothing -/

open Classical in
/-- The operations of a client to which no response comes that loses a call. -/
inductive AnsweringOperation (code : ClientCode D H T Msg Ctx U) :
    ClientProg queue D H T Msg U → Prop where
  | call (r : CallRequest D H T Msg) : AnsweringOperation code (call code r)
  | processRpcResponse (rpcMeta : RpcMeta) (data : StringView) (context : Ctx) :
      AnsweringOperation code
        ((processRpcResponse code rpcMeta data context).onlyIf (Answers code rpcMeta data))
  | checkTimeout : AnsweringOperation code (checkTimeout code)

/-- `clientWorld`, left with the runs in which every response answers and no callback is empty. -/
def answeringWorld (code : ClientCode D H T Msg Ctx U) :
    World (Host queue D H T U) (ClientEvent Msg) Empty (Except Exn Unit) where
  env h h' := h'.client = h.client ∧ h.clock ≤ h'.clock
  spawn := AnsweringOperation code
  bound := Host.Within

section answers

variable {code : ClientCode D H T Msg Ctx U}

theorem answeringWorld_keeps (hin : code.inbound = makeInterceptor []) (hback : code.ComesBack)
    (q : UInt64) :
    (answeringWorld code : World (Host queue D H T U) _ _ _).Keeps (callDuty q True) where
  bound _ h := h
  env_inv h h' henv hs := by
    show h'.client.Consistent ∧ h'.client.NonEmpty
    rw [henv.1]
    exact hs
  env_safe h h' henv hs := by
    show q ∈ h'.client.mStubHandleMap ∨ (True ∧ h'.client.mSequenceID ≤ q.toNat)
    rw [henv.1]
    exact hs
  spawn p hp := by
    cases hp with
    | call r => exact discharges_call code r
    | processRpcResponse rpcMeta data context =>
        by_cases htype : rpcMeta.type = .response
        · rw [processRpcResponse_eq code rpcMeta data context htype]
          intro h h' hs hb hf
          obtain ⟨hanswers, hf⟩ := Option.ite_none_right_eq_some.mp hf
          obtain rfl := Option.some.inj hf
          refine ⟨⟨hs.1.forget _, hb.2⟩, _, fun ho => ?_,
            discharges_afterSection code hin context hs.1 hs.2 hanswers⟩
          -- the call answered here is the one that is due, any other is where it was
          rcases ho.resolve_left id with hq | hle
          · by_cases heq : rpcMeta.responseInfo.sequenceId = q
            · exact .inr ⟨heq, heq ▸ hq⟩
            · exact .inl (.inl (Finmap.mem_erase.mpr ⟨Ne.symm heq, hq⟩))
          · exact .inl (.inr hle)
        · rw [processRpcResponse, if_pos htype]
          exact id
    | checkTimeout => exact discharges_checkTimeout hback

/-- In a run to which only responses come that answer, a call whose callbacks have not run is still
pending, in both maps if it has a timeout. -/
theorem ran_or_pending (hin : code.inbound = makeInterceptor []) (hback : code.ComesBack)
    {clock : Int64} {user : U} {es : List (ClientEvent Msg)}
    {b : Pool (Host queue D H T U) (ClientEvent Msg) Empty (Except Exn Unit)}
    (hrun : Pool.Run (answeringWorld code) ⟨Host.fresh clock user, []⟩ es b)
    (hd : ∀ p ∈ b.threads, p.Done) {q : UInt64} (hq : q.toNat < b.state.client.mSequenceID) :
    (∃ e ∈ es, e.runs = some q) ∨ (∃ e ∈ es, e.OneWay q) ∨
      ∃ stub, b.state.client.mStubHandleMap.lookup q = some stub ∧
        (stub.timed → q ∈ b.state.client.mTimeoutHandleMap) := by
  have hfresh : BaseClient.NonEmpty ({} : BaseClient queue D H T) :=
    ⟨fun h => by simp at h, fun h => by simp at h⟩
  have hstart : Pool.Holds (callDuty q True) (⟨Host.fresh clock user, []⟩ :
      Pool (Host queue D H T U) (ClientEvent Msg) Empty (Except Exn Unit)) :=
    ⟨⟨.fresh, hfresh⟩, False, .inl (.inr ⟨trivial, Nat.zero_le _⟩), id⟩
  rcases hrun.holds (answeringWorld_keeps hin hback q) hstart with
    ⟨e, he, hruns | ⟨-, hone⟩⟩ | ⟨⟨hcons, -⟩, o, ho, hall⟩
  · exact .inl ⟨e, he, hruns⟩
  · exact .inr (.inl ⟨e, he, hone⟩)
  · rcases ho.resolve_right (hall.not_of_done hd) with hmem | ⟨-, hle⟩
    · obtain ⟨stub, hstub⟩ := Finmap.mem_iff.mp hmem
      exact .inr (.inr ⟨stub, hstub, hcons.mem_timeout hstub⟩)
    · omega

theorem alone_keeps (q : UInt64) :
    (World.alone Host.Within : World (Host queue D H T U) (ClientEvent Msg) Empty (Except Exn Unit)).Keeps
      (callDuty q False) where
  bound _ h := h
  env_inv _ _ henv := henv.elim
  env_safe _ _ henv := henv.elim
  spawn _ hp := hp.elim

/-- A response loses nothing exactly when it answers. -/
theorem losesNothing_iff (hin : code.inbound = makeInterceptor []) {h : Host queue D H T U}
    (hcons : h.client.Consistent) (hwithin : h.Within) {rpcMeta : RpcMeta}
    (htype : rpcMeta.type = .response) (data : StringView) (context : Ctx) :
    LosesNothing code rpcMeta data context h ↔ Answers code rpcMeta data h := by
  unfold LosesNothing
  rw [processRpcResponse_eq code rpcMeta data context htype]
  constructor
  · intro hloses
    by_contra hnot
    have hmem : rpcMeta.responseInfo.sequenceId ∈ h.client.mStubHandleMap := by
      by_contra hmem
      exact hnot (.inl hmem)
    -- nothing is run after the section, so the processing ends here
    have hend : (afterSection code rpcMeta data context h).Done := by
      obtain ⟨hflag, t, ht, -, -⟩ | ⟨hflag, stub, hstub, hp⟩ | ⟨r, hp, -⟩ :=
        afterSection_cases code rpcMeta data context h
      · exact (hnot (.inr (.inl ⟨hflag, Finmap.mem_of_lookup_eq_some ht⟩))).elim
      · rw [hp, runStub, parseResponseWrapper]
        cases hparse : parseMessage code.codec "response" stub.type rpcMeta.encoding data with
        | error e => trivial
        | ok message => exact (hnot (.inr (.inr ⟨hflag, stub, message, hstub, hparse⟩))).elim
      · rw [hp]
        trivial
    have hafter : Host.Within { h with client := h.client.forget rpcMeta.responseInfo.sequenceId } :=
      ⟨hwithin.1, hwithin.2.forget _⟩
    have hrun : Pool.Run (World.alone Host.Within) ⟨h, [.act (Host.onClient
        (BaseClient.forget rpcMeta.responseInfo.sequenceId)) (afterSection code rpcMeta data context)]⟩
        [] ⟨{ h with client := h.client.forget rpcMeta.responseInfo.sequenceId },
          [afterSection code rpcMeta data context h]⟩ := .single (.act [] [] rfl hafter)
    -- the call is gone from the map and no event has run its handle
    obtain ⟨e, he, -⟩ := hloses [] _ hrun (by simpa using hend) _ hmem (by
      simp [BaseClient.forget])
    cases he
  · intro hanswers es b hrun hd q hq hgone
    obtain ⟨h', hf, hb, hrun⟩ := hrun.of_act hd
    obtain rfl := Option.some.inj hf
    have hduty : Discharges (callDuty q False : Duty (Host queue D H T U) _) _ _ :=
      discharges_afterSection code hin context hcons hwithin.2 hanswers
    -- only the call that is answered leaves the map, and it is due
    have hstart : Pool.Holds (callDuty q False)
        ⟨{ h with client := h.client.forget rpcMeta.responseInfo.sequenceId },
          [afterSection code rpcMeta data context h]⟩ := by
      refine ⟨⟨hcons.forget _, hb.2⟩, _, ?_, .single hduty⟩
      by_cases heq : rpcMeta.responseInfo.sequenceId = q
      · exact .inr ⟨heq, heq ▸ hq⟩
      · exact .inl (.inl (Finmap.mem_erase.mpr ⟨Ne.symm heq, hq⟩))
    rcases hrun.settled_or_safe (alone_keeps q) hstart hd with ⟨e, he, hruns | ⟨hf, -⟩⟩ | hq' | ⟨hf, -⟩
    · exact ⟨e, he, hruns⟩
    · exact hf.elim
    · exact absurd hq' hgone
    · exact hf.elim

end answers

/-! A client that waits for the response to a call with a timeout of ten seconds. -/

def plainTimedCall : CallRequest Unit Unit Unit Unit := ⟨(), 1, 2, (), some (), some (10, some ())⟩

def waitingClient : BaseClient (.sorted WaitResponseTimer.le) Unit Unit Unit :=
  BaseClient.insertTimed 0 { owner := 0, timed := true, type := (), handle := some () }
    { owner := 0, callback := some () }
    (WaitResponseTimer.start 0 (WaitResponseTimer.nanoseconds 10) 0) (BaseClient.allocate {})

theorem waitingClient_reachable :
    ∃ es b, Pool.Run (clientWorld plainCode) ⟨(Host.fresh 0 () : PlainHost), []⟩ es b ∧
      b.state.client = waitingClient := by
  have hb : ∀ h : PlainHost, h.client.mSequenceID = 1 → (clientWorld plainCode).bound h := by
    intro h h1
    show h.client.mSequenceID < 2 ^ 64
    rw [h1]
    decide
  have h1 : Pool.Run (clientWorld plainCode) ⟨(Host.fresh 0 () : PlainHost), []⟩ []
      ⟨_, [call plainCode plainTimedCall]⟩ := .single (.spawn [] (.call plainTimedCall))
  have h2 := h1.tail (.act [] [] rfl (hb _ rfl))
  have h3 := h2.tail (.act [] [] rfl (hb _ rfl))
  have h4 := h3.tail (.act [] [] rfl (hb _ rfl))
  exact ⟨_, _, h4, rfl⟩

theorem waitingClient_nonEmpty : waitingClient.NonEmpty where
  stub hx := by
    obtain ⟨-, rfl⟩ | ⟨-, hx⟩ := Finmap.of_lookup_insert hx
    · rfl
    · simp [BaseClient.allocate] at hx
  timeout hx := by
    obtain ⟨-, rfl⟩ | ⟨-, hx⟩ := Finmap.of_lookup_insert hx
    · rfl
    · simp [BaseClient.allocate] at hx

theorem plainCode_comesBack : plainCode.ComesBack where
  outbound _ := fun _ => trivial
  timeout _ := rfl

/-- A response in an encoding the library does not know. -/
def unreadableResponse : RpcMeta :=
  { type := .response, encoding := .unknown, response := some {} }

end GayRpc
