import GayRpc.Duplex.Forwarding
import GayRpc.Service.ReplyFlags

/-!
# Every call is completed

What one side does on account of a chunk, and a call from its first section on, forward every call on the
connection. So in every run of two peers each call is at one of its stages, and when all threads are done
and nothing is on its way any more, a call that was answered has had its handle called.

At rest a call is in nobody's hands, and neither of its two messages is on the wire. That leaves few
stages (`rests`): the call is done, or its reply object waits to be called, or it asked for no response.
Its stage also tells what has been shown of it, so that the numbers of requests, answers and calls of the
handle can be compared (`handled_eq_answered`).

If every method calls its reply object on every path, no reply object is left that waits (`duplexWorld_keeps`,
by `Service/ReplyFlags`). Then every call with a handle is done (`calls_completed`). That a method does not
end the thread on which it was called has to be said (`MethodsReturn`), since such a thread would also take
the rest of its chunk with it.
-/

namespace GayRpc

open Prog Pool

section completion

variable {queue : PriorityQueue WaitResponseTimer WaitResponseTimer.le} {D H T Msg Ctx V : Type}
  {code : DuplexCode D Msg Ctx V} {side x : Side} {q : UInt64} {b : Bool}
  {t : Moment (Duplex queue D H T Msg V) (DuplexEvent Msg) Place}

/-! ## Chunks -/

section chunks

variable {rpcMeta : RpcMeta} {data : StringView} {messages : List (RpcMeta × StringView)}

/-- A message that has come in is the call's if it concerns the call. -/
theorem forwards_handleRpcMsg (hP : code.protobuf.RoundTrips) (hr : code.MethodsReturn)
    (ha : code.Arrives t.events x rpcMeta data) (hb : Concerns side q x.other rpcMeta = b)
    (hplace : b = true → t.place.stage = CallStage.come (x.other = side)) :
    Forwards (code.way side q) b t
      (code.handleRpcMsg x rpcMeta data : DuplexProg queue D H T Msg V) := by
  intro u hu ht d hd _ _ _
  obtain rfl := Option.some.inj hd
  refine ⟨u.place, b, .stay (Advances.refl) rfl ht.fits ht, ?_⟩
  have hinv : code.Fits u.events u.state := ht.inv
  have hstage : b = true → u.place.stage = CallStage.come (x.other = side) := by
    intro hb'
    rw [hu.place hb', hplace hb']
  show Forwards _ _ _ (code.callHandler x rpcMeta data ((u.state.peer x).manager.handleRpcMsg rpcMeta))
  rw [(hinv.sound x).manager]
  obtain ⟨m, hannounced, hbytes, hlt, hsize⟩ := ha
  -- what arrives has been announced, as a request of the other side or as a response to this one
  rcases hannounced with hrequest | ⟨origin, hresponse⟩
  · obtain ⟨n, r, hn, rfl, rfl⟩ := hinv.requested (hu.record.mem hrequest)
    obtain ⟨c, rfl⟩ := (hinv.sound x.other).known hn
    rw [(installed_handleRpcMsg code.serviceID c.serviceID).1 rfl]
    apply forwards_requestStub hP hr hbytes hlt hsize hb
    intro hb'
    rw [hstage hb']
    -- a request of the call is one of its own side
    have hown : x.other = side := by
      by_contra hne
      rw [← hb, Concerns, if_neg hne] at hb'
      cases hb'
    rw [decide_eq_true hown]
    rfl
  · obtain ⟨object, call, method, rfl, rfl, hgave⟩ :=
      (hinv.answered (hu.record.mem hresponse)).gave (hu.record.mem hresponse)
    obtain ⟨message, hrequest⟩ := hgave.asked.shown
    rw [Side.other_other] at hrequest
    obtain ⟨n, r, hn, hmeta, hm⟩ := hinv.requested hrequest
    obtain ⟨c, rfl⟩ := (hinv.sound x).known hn
    have hid : (call.rpcMeta object.mRequestMeta).serviceId = code.serviceID := by
      rw [ReplyCall.rpcMeta_serviceId, hmeta]
      exact c.serviceID
    rw [(installed_handleRpcMsg code.serviceID hid).2 (call.rpcMeta_type _)]
    -- the response goes to the client that made the call
    apply forwards_processRpcResponse hP ⟨n, c.request, hn, hmeta, hm⟩ hgave.asked.known
      hgave.of_class hbytes hlt hsize
    · rw [← hb, ← Bool.coe_iff_coe, decide_eq_true_iff]
      exact concerns_other.symm
    · intro hb'
      rw [hb'] at hb
      obtain ⟨rfl, -⟩ := concerns_other.mp hb
      rw [hstage hb', decide_eq_false x.other_ne]
      rfl

/-- Handling a message comes to an end. -/
theorem returns_handleRpcMsg (hP : code.protobuf.RoundTrips) (hr : code.MethodsReturn)
    {h : List (DuplexEvent Msg)} {d : Duplex queue D H T Msg V} (hd : code.Fits h d)
    (ha : code.Arrives h x rpcMeta data) :
    Returns (fun _ => True) (code.handleRpcMsg x rpcMeta data : DuplexProg queue D H T Msg V) := by
  intro s
  obtain ⟨m, hannounced, hbytes, hlt, hsize⟩ := ha
  show Returns _ (code.callHandler x rpcMeta data ((s.peer x).manager.handleRpcMsg rpcMeta))
  generalize (s.peer x).manager.handleRpcMsg rpcMeta = found
  rcases hannounced with hrequest | ⟨origin, hresponse⟩
  · obtain ⟨n, r, hn, rfl, rfl⟩ := hd.requested hrequest
    obtain ⟨c, rfl⟩ := (hd.sound x.other).known hn
    -- no entry in the table, a client, or the service
    rcases found with e | (_ | _)
    · trivial
    · trivial
    · exact (returns_requestStub hP hr hbytes hlt hsize).within
  · obtain ⟨object, call, -, -, -, rfl, -⟩ := hd.answered hresponse
    have htype := call.rpcMeta_type object.mRequestMeta
    rcases found with e | (_ | _)
    · trivial
    · exact (returns_processRpcResponse htype (call.rpcMeta_timeout object.mRequestMeta)).within
    · show Returns _ (Duplex.onService x ((code.service x).requestStub _ _ _))
      rw [ServiceCode.requestStub, if_pos (by rw [htype]; decide)]
      trivial

/-- Induction on the messages: before the one of the call the thread waits with the call in hand, after
it the thread is rid of it. -/
theorem forwards_handleMessages (hP : code.protobuf.RoundTrips) (hr : code.MethodsReturn)
    (ha : ∀ m ∈ messages, code.Arrives t.events x m.1 m.2)
    (hreturns : ∀ m ∈ messages, Returns (fun _ => True)
      (code.handleRpcMsg x m.1 m.2 : DuplexProg queue D H T Msg V))
    (hcount : messages.countP (fun m => Concerns side q x.other m.1) = b.toNat)
    (hplace : b = true → t.place.stage = CallStage.come (x.other = side)) :
    Forwards (code.way side q) b t
      (code.handleMessages x messages : DuplexProg queue D H T Msg V) := by
  induction messages generalizing t b with
  | nil =>
      cases b with
      | true => cases hcount
      | false => rfl
  | cons m messages ih =>
      obtain ⟨hm, hmessages⟩ := List.forall_mem_cons.mp ha
      obtain ⟨hmr, hreturns⟩ := List.forall_mem_cons.mp hreturns
      have hrest : ∀ {h}, t.events <+: h → ∀ m ∈ messages, code.Arrives h x m.1 m.2 :=
        fun hh m hm => (hmessages m hm).mono hh.subset
      rw [List.countP_cons] at hcount
      have hnext := @forwards_handleRpcMsg queue D H T Msg Ctx V code side x q
      cases hc : Concerns side q x.other m.1 with
      | true =>
          -- the message of the call is this one, and there is no other in the chunk
          obtain ⟨rfl, hzero⟩ : b = true ∧
              messages.countP (fun m => Concerns side q x.other m.1) = 0 := by
            rw [if_pos hc] at hcount
            cases b with
            | true => exact ⟨rfl, by simpa using hcount⟩
            | false => simp at hcount
          apply (hnext hP hr hm hc hplace).bind
          intro _ u hu
          exact ih (b := false) (hrest hu.record.events) hreturns hzero (by simp)
      | false =>
          rw [if_neg (by simp [hc]), Nat.add_zero] at hcount
          cases b with
          | true =>
              -- it is further back: this message is handled while the call waits in hand
              apply (hnext hP hr hm hc (by simp)).bind_waiting hmr
              intro _ u hu _
              apply ih (hrest hu.record.events) hreturns hcount
              intro _
              rw [hu.place rfl, hplace rfl]
          | false =>
              apply (hnext hP hr hm hc (by simp)).bind
              intro _ u hu
              exact ih (hrest hu.record.events) hreturns hcount (by simp)

/-- A chunk may bring the message of the call. -/
theorem forwards_deliver (hP : code.protobuf.RoundTrips) (hr : code.MethodsReturn) (n : ℕ) :
    Forwards (code.way side q) false t (code.deliver x n : DuplexProg queue D H T Msg V) := by
  intro u hu ht d hd hbound hle hinv
  obtain ⟨hlen, hd⟩ := Option.ite_none_right_eq_some.mp hd
  obtain rfl := Option.some.inj hd
  have hfits : code.OnItsWay side q u.place u.events u.state := ht.fits
  obtain ⟨-, harrives⟩ := DuplexCode.Fits.deliver hP ht.inv hlen hbound
  obtain ⟨b, hcount, hwire, hdelivered⟩ := hfits.deliver hlen
  have hreplies : ((code.delivered x n u.state).peer side.other).server.replies =
      (u.state.peer side.other).server.replies :=
    DuplexCode.delivered_proj (f := fun p => p.server.replies) n (fun _ _ => rfl) (fun _ _ => rfl) _
  have hreturns : ∀ m ∈ (code.arrive x n u.state).2, Returns (fun _ => True)
      (code.handleRpcMsg x m.1 m.2 : DuplexProg queue D H T Msg V) :=
    fun m hm => returns_handleRpcMsg hP hr hinv (harrives m hm)
  cases b with
  | true =>
      -- the chunk completes the message of the call, which leaves the wire for this thread
      have hstage := hwire rfl
      have hown : ∀ own, (6 ≤ (CallStage.wire own).rank ↔ 6 ≤ (CallStage.come own).rank) ∧
          (CallStage.wire own).inHands = false ∧ true = (CallStage.come own).inHands := by decide
      refine ⟨_, true, .move (.restage hreplies.ge ?_) hdelivered (.inr ?_) (hown _).2.2, ?_⟩
      · rw [hstage]
        exact (hown _).1
      · show u.place.stage.inHands = false
        rw [hstage]
        exact (hown _).2.1
      · exact forwards_handleMessages hP hr harrives hreturns hcount fun _ => rfl
  | false =>
      refine ⟨u.place, false, .stay (.of_replies hreplies.ge) rfl hdelivered ht, ?_⟩
      exact forwards_handleMessages hP hr harrives hreturns hcount (by simp)

end chunks

/-! ## Calls -/

section calls

variable {r : KnownCall code x H T} {n : ℕ}

theorem concerns_rpcMeta :
    Concerns side q x (r.request.rpcMeta n) = true ↔
      x = side ∧ UInt64.ofNat n = q ∧ r.request.handle.isSome = true := by
  by_cases hx : x = side
  · subst hx
    simp [Concerns, CallRequest.rpcMeta, makeRequestRpcMeta]
  · simp [Concerns, CallRequest.rpcMeta, makeRequestRpcMeta, hx]

/-- The stub of the call is put into the map, and its request is sent. -/
theorem forwards_insertUntimed (hP : code.protobuf.RoundTrips)
    (hhandle : r.request.handle.isSome = true) (hb : decide (x = side ∧ UInt64.ofNat n = q) = b)
    (hplace : b = true → t.place.stage = .drawn) :
    Forwards (code.way side q) b t
      (Duplex.onClient x (.act (Host.onClient (BaseClient.insertUntimed (UInt64.ofNat n)
          { owner := UInt64.ofNat n, timed := false, type := r.request.response,
            handle := r.request.handle })) fun _ =>
        sendRequest (code.client x) (r.request.rpcMeta n) r.request.request) :
          DuplexProg queue D H T Msg V) := by
  have hconcerns : Concerns side q x (r.request.rpcMeta n) = b := by
    rw [← hb, ← Bool.coe_iff_coe, concerns_rpcMeta, decide_eq_true_iff]
    simp [hhandle]
  intro u hu ht d hd _ _ _
  obtain rfl := Option.some.inj hd
  have hfits : code.OnItsWay side q u.place u.events u.state := ht.fits
  cases b with
  | true =>
      obtain ⟨rfl, hid⟩ := of_decide_eq_true hb
      have hstage : u.place.stage = .drawn := by rw [hu.place rfl, hplace rfl]
      -- the call is entered under its own id, with its handle
      have hmoved := hfits.moveStub (s := .waiting) (p := { u.state.peer x with
          client := (u.state.peer x).client.insertUntimed (UInt64.ofNat n)
            { owner := UInt64.ofNat n, timed := false, type := r.request.response,
              handle := r.request.handle } }) (.inl ⟨hstage, rfl⟩) rfl rfl rfl fun _ => by
        rw [← hid]
        exact ⟨_, Finmap.lookup_insert _, hhandle⟩
      refine ⟨_, true, .move (.restage ?_ ?_) hmoved (.inl rfl) (by rfl), ?_⟩
      · rw [Duplex.update_peer_of_ne _ _ _ _ x.other_ne]
      · rw [hstage]
        decide
      · apply forwards_sendRequest hP hconcerns
        intro _
        simp [CallStage.ready]
  | false =>
      -- another call has another id, so the entry of this one is not touched
      have hother := of_decide_eq_false hb
      obtain ⟨hle', hstays⟩ := hfits.congr (x := x) (p := { u.state.peer x with
          client := (u.state.peer x).client.insertUntimed (UInt64.ofNat n)
            { owner := UInt64.ofNat n, timed := false, type := r.request.response,
              handle := r.request.handle } }) (fun _ => rfl)
        (fun hx => Finmap.lookup_insert_of_ne _ fun hid => hother ⟨hx, hid.symm⟩) rfl rfl
        (fun _ => rfl) fun _ => rfl
      refine ⟨u.place, false, .stay hle' rfl hstays ht, ?_⟩
      exact forwards_sendRequest hP hconcerns (by simp)

/-- A call begins where its id is drawn. -/
theorem forwards_request (hP : code.protobuf.RoundTrips) (r : KnownCall code x H T) :
    Forwards (code.way side q) false t (code.request x r : DuplexProg queue D H T Msg V) := by
  rw [DuplexCode.request, call_untimed _ r.untimed]
  intro u hu ht d hd _ _ hinv
  have hfits : code.OnItsWay side q u.place u.events u.state := ht.fits
  have hsound := DuplexCode.Fits.sound ht.inv x
  have hlt : (u.state.peer x).client.mSequenceID < 2 ^ 64 :=
    (DuplexCode.Fits.bounded ht.inv).calls x
  obtain ⟨p, rfl, hcalls, hstub, hheld, hserver⟩ : ∃ p : Peer queue D H T Msg V,
      d = u.state.update x p ∧ p.calls = (u.state.peer x).calls ++ [r.request] ∧
      p.client.mStubHandleMap = (u.state.peer x).client.mStubHandleMap ∧
      p.held = (u.state.peer x).held ∧ p.server = (u.state.peer x).server := by
    obtain rfl := Option.some.inj hd
    refine ⟨{ u.state.peer x with
      client := (u.state.peer x).client.allocate
      calls := (u.state.peer x).calls ++ [r.request] }, ?_, rfl, rfl, rfl, rfl⟩
    show Duplex.note x r.request (u.state.update x _) = _
    rw [Duplex.note, Duplex.update_peer, Duplex.update_update]
    rfl
  have hsession : p.session.outgoing = (u.state.peer x).session.outgoing := by
    rw [Peer.session, hserver]
    rfl
  show ∃ π x', _ ∧ Forwards _ _ _ (Duplex.onClient x (ite _ _ _))
  by_cases hown : x = side ∧ UInt64.ofNat (u.state.peer x).client.mSequenceID = q
  · obtain ⟨rfl, hid⟩ := hown
    have hlen : (u.state.peer x).calls.length = q.toNat := by
      rw [hsound.count, ← hid, UInt64.toNat_ofNat_of_lt' hlt]
    -- the id drawn is that of the call, which did not exist before
    have hnew := hfits.stage_eq_new hlen.le
    have hallocated := hfits.allocate hlen r.request hcalls hheld hsession
    have hreplies : ((u.state.update x p).peer x.other).server.replies =
        (u.state.peer x.other).server.replies := by
      rw [Duplex.update_peer_of_ne _ _ _ _ x.other_ne]
    have hfree : u.place.stage.inHands = false := by
      rw [hnew]
      rfl
    by_cases hhandle : r.request.handle.isSome = true
    · rw [if_pos hhandle] at hallocated ⊢
      refine ⟨_, true, .move (.restage hreplies.ge ?_) hallocated (.inr hfree) rfl, ?_⟩
      · rw [hnew]
        decide
      · exact forwards_insertUntimed hP hhandle (decide_eq_true ⟨rfl, hid⟩) fun _ => rfl
    · rw [if_neg hhandle] at hallocated ⊢
      refine ⟨_, false, .move (.restage hreplies.ge ?_) hallocated (.inr hfree) rfl, ?_⟩
      · rw [hnew]
        decide
      · refine forwards_sendRequest hP ?_ (by simp)
        rw [← Bool.not_eq_true]
        exact fun hc => hhandle (concerns_rpcMeta.mp hc).2.2
  · obtain ⟨hle', hstays⟩ : Advances side u.state u.place (u.state.update x p) u.place ∧
        code.OnItsWay side q u.place u.events (u.state.update x p) := by
      by_cases hx : x = side
      · subst hx
        refine hfits.allocate_other ?_ r.request hcalls hstub hheld hsession
        intro hlen
        rw [hsound.count] at hlen
        exact hown ⟨rfl, by rw [hlen, UInt64.ofNat_toNat]⟩
      · exact hfits.congr (fun h => absurd h hx) (fun h => absurd h hx) hheld hsession
          (fun _ => by rw [hserver]) fun _ => by rw [hserver]
    refine ⟨u.place, false, .stay hle' rfl hstays ht, ?_⟩
    split
    · next hhandle => exact forwards_insertUntimed hP hhandle (decide_eq_false hown) (by simp)
    · next hhandle =>
      refine forwards_sendRequest hP ?_ (by simp)
      rw [← Bool.not_eq_true]
      exact fun hc => hhandle (concerns_rpcMeta.mp hc).2.2

end calls

/-! ## Whole runs -/

/-- Whatever happens on a connection forwards the call. -/
theorem duplexWorld_forwards (hP : code.protobuf.RoundTrips) (hr : code.MethodsReturn) :
    (duplexWorld code : World (Duplex queue D H T Msg V) _ _ _).Forwards (code.way side q) where
  env t d hdrift _ ht _ := by
    -- what drifts is the clock and the state of the user, which no place depends on
    have hsame : ∀ {α : Type} (f : Peer queue D H T Msg V → α),
        (∀ p clock user, f { p.setSession (p.session.setUser user) with clock := clock } = f p) →
        ∀ x, f (d.peer x) = f (t.state.peer x) := by
      intro α f hf x
      obtain ⟨clock, user, hx⟩ := hdrift x
      rw [hx, hf]
    have hfits : code.OnItsWay side q t.place t.events t.state := ht
    have hreplies := hsame (fun p => p.server.replies) (fun _ _ _ => rfl) side.other
    have hflag := hsame (fun p => p.server.mReplyFlag) (fun _ _ _ => rfl) side.other
    refine ⟨.of_replies hreplies.ge, hfits.stays (hsame Peer.calls (fun _ _ _ => rfl) side)
      (hsame (fun p => p.client.mStubHandleMap.lookup q) (fun _ _ _ => rfl) side) (fun x => ?_) ?_ ?_⟩
    · rw [Duplex.wire, hsame Peer.held (fun _ _ _ => rfl) x.other,
        hsame (fun p => p.session.outgoing) (fun _ _ _ => rfl) x]
      exact hfits.wire x
    · rw [hreplies, hflag]
      exact hfits.object
    · rw [hreplies, hflag]
      exact hfits.unmade
  spawn p hp t := by
    cases hp with
    | request x r => exact forwards_request hP r
    | deliver x n => exact forwards_deliver hP hr n

theorem tracked_fresh (side : Side) (q : UInt64) (clock : Side → Int64) (user : Side → V) :
    (⟨.fresh code.serviceID clock user, []⟩ : Pool (Duplex queue D H T Msg V) (DuplexEvent Msg) Empty
      (Except Exn Unit)).Tracked (code.way side q) [] ⟨.new, 0⟩ := by
  have hown : ∀ own, ¬ (CallStage.shown own).rank ≤ CallStage.new.rank ∧
      CallStage.new ≠ CallStage.wire own := by decide
  refine ⟨?_, [], .nil, rfl⟩
  exact
    { new := fun _ => Nat.zero_le _
      oneWay := by simp
      call := by simp [CallStage.rank]
      stub := by simp [CallStage.waits, CallStage.rank]
      announced := fun x => (if_neg (hown _).1).symm
      handled := rfl
      wire := fun x => ⟨[], rfl, by simp, (if_neg (hown _).2).symm⟩
      object := by simp [CallStage.rank]
      unmade := fun _ _ => rfl }

/-! ## Reply objects -/

/-- Every method calls its reply object on every path, from whatever thread. -/
def DuplexCode.MethodsAnswer (code : DuplexCode D Msg Ctx V) : Prop :=
  ∀ side,
    (∀ id method, (code.peer side).serviceHandlerMapById.dlookup id = some method →
      ∀ message context, (method.run message context).Asks) ∧
    ∀ name method, (code.peer side).serviceHandlerMapByStr.dlookup name = some method →
      ∀ message context, (method.run message context).Asks

theorem DuplexCode.MethodsAnswer.service (ha : code.MethodsAnswer) (x : Side) :
    (code.service x).Answers := by
  have hrun : ∀ {method : RpcMethod code.protobuf Ctx V},
      (∀ message context, (method.run message context).Asks) →
        ∀ message context, (method.serviceMethod.run message context).Asks :=
    fun hm message context => (hm message context).lift.plug fun _ _ _ => trivial
  -- the tables of a service hold the methods of its lists, each wrapped for the session
  have hlookup : ∀ {α : Type} [DecidableEq α]
      {l : List (Sigma fun _ : α => RpcMethod code.protobuf Ctx V)} {a : α}
      {method : ServiceMethod D Msg Ctx (Session V)},
      ((l.map (Sigma.map id fun _ => RpcMethod.serviceMethod)).toFinmap : Finmap fun _ : α =>
        ServiceMethod D Msg Ctx (Session V)).lookup a = some method →
          ∃ m, l.dlookup a = some m ∧ m.serviceMethod = method := by
    intro α _ l a method h
    rw [Finmap.dlookup_list_toFinmap, List.dlookup_map₂] at h
    exact Option.map_eq_some_iff.mp h
  intro rpcMeta method hfound
  unfold ServiceCode.findHandler at hfound
  split at hfound
  · split at hfound
    · next hname =>
      obtain rfl := Except.ok.inj hfound
      obtain ⟨m, hm, rfl⟩ := hlookup hname
      exact hrun ((ha x).2 _ m hm)
    · cases hfound
  · split at hfound
    · next hid =>
      obtain rfl := Except.ok.inj hfound
      obtain ⟨m, hm, rfl⟩ := hlookup hid
      exact hrun ((ha x).1 _ m hm)
    · cases hfound

/-- The reply object `n` of one side is to be called. -/
def replyDuty (y : Side) (n : ℕ) : Duty (Duplex queue D H T Msg V) (DuplexEvent Msg) where
  inv _ := True
  bound _ := True
  safe d := (flagDuty n : Duty (Server (Session V)) (ServiceEvent Msg)).safe (d.peer y).server
  settles _ := False

section flags

variable {y : Side} {n : ℕ}

theorem replyDuty_update {d : Duplex queue D H T Msg V} {p : Peer queue D H T Msg V}
    (hd : (replyDuty y n : Duty _ (DuplexEvent Msg)).safe d)
    (hreplies : p.server.replies = (d.peer x).server.replies)
    (hflag : p.server.mReplyFlag = (d.peer x).server.mReplyFlag) :
    (replyDuty y n : Duty _ (DuplexEvent Msg)).safe (d.update x p) := by
  show ((d.update x p).peer y).server.replies ≤ n ∨ ((d.update x p).peer y).server.mReplyFlag n = true
  rw [Duplex.update_proj (f := fun p => p.server.replies) y hreplies,
    Duplex.update_proj (f := fun p => p.server.mReplyFlag) y hflag]
  exact hd

theorem replyDuty_onClient (p : ClientProg queue D H T Msg (Session V)) :
    Discharges (replyDuty y n : Duty (Duplex queue D H T Msg V) _) False (Duplex.onClient x p) :=
  Discharges.elsewhere (fun _ _ _ => trivial) fun _ _ hd => replyDuty_update hd rfl rfl

theorem replyDuty_handleRpcMsg (ha : code.MethodsAnswer) (rpcMeta : RpcMeta) (data : StringView) :
    Discharges (replyDuty y n : Duty (Duplex queue D H T Msg V) _) False
      (code.handleRpcMsg x rpcMeta data) := by
  intro d d' _ _ hd
  obtain rfl := Option.some.inj hd
  refine ⟨trivial, False, fun ho => .inl (ho.resolve_left id), ?_⟩
  show Discharges _ _ (code.callHandler x rpcMeta data _)
  generalize (d.peer x).manager.handleRpcMsg rpcMeta = found
  rcases found with e | (_ | _)
  · exact id
  · exact replyDuty_onClient _
  · -- the reply object lives on side `y`; on the other side nothing can make or set it
    by_cases hx : y = x
    · subst hx
      have hstub : Discharges (flagDuty n) False
          ((code.service y).requestStub rpcMeta data code.emptyContext) :=
        flagDuty_requestStub (ha.service y) rpcMeta data _
      refine hstub.within ?_ ?_ ?_ ?_ ?_ ?_
      · exact fun _ _ => trivial
      · exact fun _ _ _ _ => trivial
      · exact fun _ _ _ => trivial
      · exact fun _ hd => hd
      · intro d s hs
        show (flagDuty n : Duty _ (ServiceEvent Msg)).safe ((d.update y _).peer y).server
        rw [Duplex.update_peer]
        exact hs
      · exact fun _ => id
    · refine Discharges.elsewhere (fun _ _ _ => trivial) fun d s hd => ?_
      show (flagDuty n : Duty _ (ServiceEvent Msg)).safe ((d.update x _).peer y).server
      rw [Duplex.update_peer_of_ne _ _ _ _ hx]
      exact hd

theorem replyDuty_handleMessages (ha : code.MethodsAnswer) (messages : List (RpcMeta × StringView)) :
    Discharges (replyDuty y n : Duty (Duplex queue D H T Msg V) _) False
      (code.handleMessages x messages) := by
  induction messages with
  | nil => exact id
  | cons m messages ih => exact (replyDuty_handleRpcMsg ha m.1 m.2).bind fun _ => ih

/-- No reply object is forgotten on a connection. -/
theorem duplexWorld_keeps (ha : code.MethodsAnswer) :
    (duplexWorld code : World (Duplex queue D H T Msg V) _ _ _).Keeps (replyDuty y n) where
  bound _ _ := trivial
  env_inv _ _ _ _ := trivial
  env_safe d d' hdrift hd := by
    obtain ⟨clock, user, hy⟩ := hdrift y
    show (flagDuty n : Duty _ (ServiceEvent Msg)).safe (d'.peer y).server
    rw [hy]
    exact hd
  spawn p hp := by
    cases hp with
    | request x r =>
        rw [DuplexCode.request, call_untimed _ r.untimed]
        intro d d' _ _ hd
        obtain rfl := Option.some.inj hd
        refine ⟨trivial, False, fun ho => .inl ?_, replyDuty_onClient _⟩
        exact replyDuty_update (replyDuty_update (ho.resolve_left id) rfl rfl) rfl rfl
    | deliver x m =>
        intro d d' _ _ hd
        obtain ⟨-, hd⟩ := Option.ite_none_right_eq_some.mp hd
        obtain rfl := Option.some.inj hd
        refine ⟨trivial, False, fun ho => .inl ?_, replyDuty_handleMessages ha _⟩
        -- delivering moves bytes only; no reply object is made by it
        have hreplies : ((code.delivered x m d).peer y).server.replies = (d.peer y).server.replies :=
          DuplexCode.delivered_proj (f := fun p => p.server.replies) m (fun _ _ => rfl)
            (fun _ _ => rfl) y
        have hflag : ((code.delivered x m d).peer y).server.mReplyFlag =
            (d.peer y).server.mReplyFlag :=
          DuplexCode.delivered_proj (f := fun p => p.server.mReplyFlag) m (fun _ _ => rfl)
            (fun _ _ => rfl) y
        show ((code.delivered x m d).peer y).server.replies ≤ n ∨
          ((code.delivered x m d).peer y).server.mReplyFlag n = true
        rw [hreplies, hflag]
        exact ho.resolve_left id

end flags

/-! ## At rest

What is left of the stages when nothing moves any more. -/

/-- All threads are done, and there are no bytes on their way or held back. -/
structure AtRest (b : Pool (Duplex queue D H T Msg V) (DuplexEvent Msg) Empty (Except Exn Unit)) :
    Prop where
  threads : ∀ p ∈ b.threads, p.Done
  outgoing : ∀ x, (b.state.peer x).session.outgoing = []
  held : ∀ x, (b.state.peer x).held = []

theorem Message.eq_nil_of_flatMap_bytes {order : ByteOrder} {ms : List Message}
    (h : ms.flatMap (Message.bytes order) = []) : ms = [] := by
  cases ms with
  | nil => rfl
  | cons m ms =>
      have hlen := congrArg List.length h
      rw [List.flatMap_cons, List.length_append, Message.bytes_eq_encode, OpPacket.length_encode] at hlen
      simp at hlen

/-! ## The example comes to rest -/

/-- The only method is the one that echoes. -/
theorem echo_method {side : Side} {id : UInt64} {method : RpcMethod echoProtobuf Unit Bool}
    (h : (echoCode.peer side).serviceHandlerMapById.dlookup id = some method) : method = echoMethod := by
  have hmem : (⟨id, method⟩ : Sigma fun _ : UInt64 => RpcMethod echoProtobuf Unit Bool) ∈
      [⟨2, echoMethod⟩] := List.of_mem_dlookup h
  obtain ⟨-, hmethod⟩ := Sigma.mk.inj (List.mem_singleton.mp hmem)
  exact eq_of_heq hmethod

theorem echo_methodsReturn : echoCode.MethodsReturn := by
  intro side id method h message context
  rw [echo_method h]
  trivial

theorem echo_methodsAnswer : echoCode.MethodsAnswer := by
  refine fun side => ⟨fun id method h message context => ?_, fun name method h => by cases h⟩
  rw [echo_method h]
  exact .inl fun _ => trivial

set_option maxRecDepth 4000 in
/-- The call goes out, comes in at the right in two chunks, waits for the user there, and is answered. -/
theorem echo_rests : ∃ b, Run (duplexWorld echoCode) ⟨echoStart, []⟩
    [.client .left (.request echoRequest [7]),
      .service .right (.called echoReply (.reply [7] ()) true),
      .service .right (.response (some echoReply) (replyMeta echoRequest) [7]),
      .client .left (.handle 0 0 [7] none)] b ∧ AtRest b ∧
    (b.state.peer .left).calls[0]? = some echoCall.request := by
  have h1 : Run (duplexWorld echoCode) ⟨echoStart, []⟩ []
      ⟨_, [_]⟩ := .single (.spawn [] (.request .left echoCall))
  have h2 := h1.tail (.act [] [] rfl (Duplex.bounded_of_small (by rfl)))
  have h3 := h2.tail (.act [] [] rfl (Duplex.bounded_of_small (by rfl)))
  have h4 := h3.tail (.emit [] [] _ (Duplex.bounded_of_small (by rfl)))
  have h5 := h4.tail (.act [] [] rfl (Duplex.bounded_of_small (by rfl)))
  -- the request is out; twenty bytes are too few to be a packet
  have h6 := h5.tail (.spawn _ (.deliver .right 20))
  have h7 := h6.tail (.act [] _ (if_pos (by decide)) (Duplex.bounded_of_small (by rfl)))
  -- the rest of the request arrives, and the service answers on a thread of its own
  have h8 := h7.tail (.spawn _ (.deliver .right 100))
  have h9 := h8.tail (.act [] _ (if_pos (by decide)) (Duplex.bounded_of_small (by rfl)))
  have h10 := h9.tail (.act [] _ rfl (Duplex.bounded_of_small (by rfl)))
  have h11 := h10.tail (.act [] _ rfl (Duplex.bounded_of_small (by rfl)))
  have h12 := h11.tail (.fork [] _ (Duplex.bounded_of_small (by rfl)))
  have h13 := h12.tail (.env _ (Duplex.drifts_ready _) (Duplex.bounded_of_small (by rfl)))
  have h14 := h13.tail (.act [] _ rfl (Duplex.bounded_of_small (by rfl)))
  have h15 := h14.tail (.act [] _ rfl (Duplex.bounded_of_small (by rfl)))
  have h16 := h15.tail (.emit [] _ _ (Duplex.bounded_of_small (by rfl)))
  have h17 := h16.tail (.emit [] _ _ (Duplex.bounded_of_small (by rfl)))
  have h18 := h17.tail (.act [] _ rfl (Duplex.bounded_of_small (by rfl)))
  -- the response arrives in one piece
  have h19 := h18.tail (.spawn _ (.deliver .left 100))
  have h20 := h19.tail (.act [] _ (if_pos (by decide)) (Duplex.bounded_of_small (by rfl)))
  have h21 := h20.tail (.act [] _ rfl (Duplex.bounded_of_small (by rfl)))
  have h22 := h21.tail (.act [] _ rfl (Duplex.bounded_of_small (by rfl)))
  have h23 := h22.tail (.emit [] _ _ (Duplex.bounded_of_small (by rfl)))
  refine ⟨_, h23, ⟨?_, ?_, ?_⟩, by rfl⟩
  · exact List.forall_mem_cons.mpr ⟨trivial, List.forall_mem_cons.mpr ⟨trivial,
      List.forall_mem_cons.mpr ⟨trivial, List.forall_mem_cons.mpr ⟨trivial,
        List.forall_mem_singleton.mpr trivial⟩⟩⟩⟩
  · intro x
    cases x <;> rfl
  · intro x
    cases x <;> rfl

/-! ## Every call is completed -/

section rest

variable {clock : Side → Int64} {user : Side → V} {es : List (DuplexEvent Msg)}
  {b : Pool (Duplex queue D H T Msg V) (DuplexEvent Msg) Empty (Except Exn Unit)}

/-- Where a call is when a run has come to rest. -/
theorem rests (hP : code.protobuf.RoundTrips) (hr : code.MethodsReturn)
    (hrun : Run (duplexWorld code) ⟨.fresh code.serviceID clock user, []⟩ es b) (hb : AtRest b)
    (side : Side) (q : UInt64) :
    ∃ π, code.OnItsWay side q π es b.state ∧
      (π.stage = .new ∨ π.stage = .oneWay ∨ π.stage = .opened ∨ π.stage = .done) := by
  obtain ⟨π, hπ⟩ := hrun.tracked (duplexWorld_respects hP) (duplexWorld_forwards hP hr)
    ⟨.fresh clock user, by simp⟩ (tracked_fresh side q clock user)
  have hfits : code.OnItsWay side q π es b.state := hπ.fits
  have hhands : π.stage.inHands = false := hπ.put_down hb.threads
  -- there are no messages, so the call is at none of the stages at which its message is on the wire
  have hnone : ∀ x, π.stage ≠ CallStage.wire (x = side) := by
    intro x hstage
    obtain ⟨ms, hms, -, hcount⟩ := hfits.wire x
    rw [Duplex.wire, hb.held, hb.outgoing] at hms
    rw [Message.eq_nil_of_flatMap_bytes hms.symm, if_pos hstage] at hcount
    cases hcount
  have hsent := hnone side
  have hreturned := hnone side.other
  rw [decide_eq_true rfl] at hsent
  rw [decide_eq_false side.other_ne] at hreturned
  refine ⟨π, hfits, ?_⟩
  revert hhands hsent hreturned
  generalize π.stage = s
  cases s <;> decide

/-- No response gets lost: when a run has come to rest, the handle of a call has been called exactly as
often as its method has answered, which is once or not at all; and whoever has made a call with a handle
has sent its request exactly once. -/
theorem handled_eq_answered (code : DuplexCode D Msg Ctx V) (hP : code.protobuf.RoundTrips)
    (hr : code.MethodsReturn)
    (hrun : Run (duplexWorld code) ⟨.fresh code.serviceID clock user, []⟩ es b) (hb : AtRest b)
    (side : Side) (q : UInt64) :
    es.countP (fun e => e.runs = some (side, q)) =
        es.countP (DuplexEvent.announces side q side.other) ∧
      es.countP (DuplexEvent.announces side q side.other) ≤
        es.countP (DuplexEvent.announces side q side) ∧
      es.countP (DuplexEvent.announces side q side) ≤ 1 ∧
      ((∃ r, (b.state.peer side).calls[q.toNat]? = some r ∧ r.handle.isSome) →
        es.countP (DuplexEvent.announces side q side) = 1) := by
  obtain ⟨π, hfits, hstage⟩ := rests hP hr hrun hb side q
  have hresponse := hfits.announced side.other
  have hrequest := hfits.announced side
  rw [decide_eq_false side.other_ne] at hresponse
  rw [decide_eq_true rfl] at hrequest
  rw [hfits.handled, hresponse, hrequest]
  -- at rest the call is in none of the hands it passes through
  obtain hnew | honeWay | hopened | hdone := hstage
  · have hnone : ¬ ∃ r, (b.state.peer side).calls[q.toNat]? = some r ∧ r.handle.isSome := by
      rintro ⟨r, hcall, -⟩
      rw [List.getElem?_eq_none (hfits.new hnew)] at hcall
      cases hcall
    rw [hnew]
    exact ⟨rfl, by decide, by decide, fun h => absurd h hnone⟩
  · have hnone : ¬ ∃ r, (b.state.peer side).calls[q.toNat]? = some r ∧ r.handle.isSome := by
      rintro ⟨r, hcall, hhandle⟩
      obtain ⟨r', hcall', hnone⟩ := hfits.oneWay honeWay
      obtain rfl := Option.some.inj (hcall.symm.trans hcall')
      rw [hnone] at hhandle
      cases hhandle
    rw [honeWay]
    exact ⟨rfl, by decide, by decide, fun h => absurd h hnone⟩
  · rw [hopened]
    exact ⟨rfl, by decide, by decide, fun _ => rfl⟩
  · rw [hdone]
    exact ⟨rfl, by decide, by decide, fun _ => rfl⟩

theorem echo_handled : ∃ es b, Run (duplexWorld echoCode) ⟨echoStart, []⟩ es b ∧ AtRest b ∧
    es.countP (fun e => e.runs = some (.left, 0)) =
      es.countP (DuplexEvent.announces .left 0 .right) ∧
    es.countP (DuplexEvent.announces .left 0 .left) = 1 := by
  obtain ⟨b, hrun, hb, hcall⟩ := echo_rests
  obtain ⟨hhandled, -, -, hrequest⟩ :=
    handled_eq_answered echoCode echoProtobuf_roundTrips echo_methodsReturn hrun hb .left 0
  exact ⟨_, b, hrun, hb, hhandled, hrequest ⟨_, hcall, rfl⟩⟩

/-- Every call is completed, if every method answers: when a run has come to rest, every call with a handle
has had its handle called, exactly once. -/
theorem calls_completed (code : DuplexCode D Msg Ctx V) (hP : code.protobuf.RoundTrips)
    (hr : code.MethodsReturn) (ha : code.MethodsAnswer)
    (hrun : Run (duplexWorld code) ⟨.fresh code.serviceID clock user, []⟩ es b) (hb : AtRest b)
    {side : Side} {q : ℕ} {r : CallRequest D H T Msg} (hcall : (b.state.peer side).calls[q]? = some r)
    (hhandle : r.handle.isSome) :
    es.countP (fun e => e.runs = some (side, UInt64.ofNat q)) = 1 := by
  obtain ⟨π, hfits, hstage⟩ := rests hP hr hrun hb side (UInt64.ofNat q)
  have hinv : code.Fits es b.state :=
    (hrun.honored (duplexWorld_respects hP) ⟨.fresh clock user, by simp⟩).1.inv
  have hid : (UInt64.ofNat q).toNat = q := by
    obtain ⟨hlen, -⟩ := List.getElem?_eq_some_iff.mp hcall
    rw [(hinv.sound side).count] at hlen
    exact UInt64.toNat_ofNat_of_lt' (hlen.trans (hinv.bounded.calls side))
  rw [hfits.handled]
  -- it was made, and with a handle, so it is answered or its reply object is still open
  obtain hnew | honeWay | hopened | hdone := hstage
  · have hlen := hfits.new hnew
    rw [hid] at hlen
    rw [List.getElem?_eq_none hlen] at hcall
    cases hcall
  · obtain ⟨r', hcall', hnone⟩ := hfits.oneWay honeWay
    rw [hid] at hcall'
    obtain rfl := Option.some.inj (hcall.symm.trans hcall')
    rw [hnone] at hhandle
    cases hhandle
  · -- the reply object of the call has been called, whoever did it
    have hstart : Pool.Holds (replyDuty side.other π.object)
        (⟨.fresh code.serviceID clock user, []⟩ : Pool (Duplex queue D H T Msg V) (DuplexEvent Msg) Empty
          (Except Exn Unit)) :=
      ⟨trivial, False, .inl (.inl (Nat.zero_le _)), id⟩
    obtain ⟨hlt, hflag⟩ := hfits.object (by rw [hopened]; decide)
    rw [hopened] at hflag
    rcases hrun.settled_or_safe (duplexWorld_keeps ha) hstart hb.threads with ⟨e, -, he⟩ | hle | hset
    · exact he.elim
    · exact absurd hle (Nat.not_le_of_lt hlt)
    · rw [hset] at hflag
      cases hflag
  · rw [if_pos hdone]

theorem echo_completed : ∃ es b, Run (duplexWorld echoCode) ⟨echoStart, []⟩ es b ∧ AtRest b ∧
    es.countP (fun e => e.runs = some (.left, 0)) = 1 := by
  obtain ⟨b, hrun, hb, hcall⟩ := echo_rests
  exact ⟨_, b, hrun, hb, calls_completed echoCode echoProtobuf_roundTrips echo_methodsReturn
    echo_methodsAnswer hrun hb hcall rfl⟩

end rest

end completion

end GayRpc
