import GayRpc.Duplex.Life

/-!
# From one stage to the next

What the sections of both peers do to a call: those on its own message, its own stub and its own reply
object take it from one stage to the next, and all others leave it where it is.

The wire is where this takes some counting. Bytes are cut into chunks without regard to messages, so what
is said of a message is how many of the frames in a direction are those of the call, in the buffer of the
receiver and on the wire together: one while it is under way, and none otherwise. A chunk completes some of
the frames (`OnItsWay.wire_delivered`), and the call is received when its own is among them.
-/

namespace GayRpc

section passage

variable {queue : PriorityQueue WaitResponseTimer WaitResponseTimer.le} {D H T Msg Ctx V : Type}

namespace DuplexCode

variable {code : DuplexCode D Msg Ctx V} {side x : Side} {q : UInt64} {π : Place}
  {h : List (DuplexEvent Msg)} {d d' : Duplex queue D H T Msg V}

/-! ## Messages -/

namespace OnItsWay

/-- The bytes of the message have got somewhere else. -/
theorem carried (hd : code.OnItsWay side q π h d) {s : CallStage} (hs : OnlyCarried π.stage s)
    (hcalls : (d'.peer side).calls = (d.peer side).calls)
    (hstub : (d'.peer side).client.mStubHandleMap.lookup q =
      (d.peer side).client.mStubHandleMap.lookup q)
    (hreplies : (d'.peer side.other).server.replies = (d.peer side.other).server.replies)
    (hflag : (d'.peer side.other).server.mReplyFlag = (d.peer side.other).server.mReplyFlag)
    (hwire : ∀ y, ∃ ms : List Message, d'.wire y = ms.flatMap (Message.bytes code.order) ∧
      (∀ m ∈ ms, code.Carries h y m) ∧
      ms.countP (code.concerns side q y) = if s = CallStage.wire (y = side) then 1 else 0) :
    code.OnItsWay side q ⟨s, π.object⟩ h d' := by
  apply hd.moved hs.rank hcalls
  · intro hwaits
    rw [hstub]
    exact hd.stub (hs.waits hwaits)
  · intro y
    simp only [hd.announced y, hs.shown]
  · simp only [hd.handled, hs.done]
  · exact hwire
  · intro hopened
    rw [hreplies, hflag]
    obtain ⟨hlt, hset⟩ := hd.object (hs.opened hopened)
    exact ⟨hlt, hset.trans (by simp only [hs.answering])⟩
  · rw [hreplies, hflag]
    exact hd.unmade

/-- What is on the wire when a message has been sent. -/
theorem wire_send (hP : code.protobuf.RoundTrips) (hd : code.OnItsWay side q π h d) {rpcMeta : RpcMeta}
    {m : Msg} (ha : Announced h x rpcMeta m) {s : Session V}
    (hs : s = (d.peer x).session.send code.order (code.protobuf.serializeMeta rpcMeta)
      (code.protobuf.serializeAsString m))
    (hb : (d.update x ((d.peer x).setSession s)).Bounded code.protobuf.sizeLimit) (y : Side) :
    ∃ ms : List Message, (d.update x ((d.peer x).setSession s)).wire y =
        ms.flatMap (Message.bytes code.order) ∧ (∀ m ∈ ms, code.Carries h y m) ∧
      ms.countP (code.concerns side q y) = (if π.stage = CallStage.wire (y = side) then 1 else 0) +
        if y = x ∧ Concerns side q x rpcMeta then 1 else 0 := by
  obtain ⟨ms, hms, hcarries, hcount⟩ := hd.wire y
  by_cases hy : y = x
  · subst hy
    have hsent : (code.protobuf.serializeMeta rpcMeta, code.protobuf.serializeAsString m) ∈
        ((d.update y ((d.peer y).setSession s)).peer y).session.sent := by
      rw [Duplex.update_peer]
      show _ ∈ s.sent
      rw [hs]
      exact List.mem_append_right _ (List.mem_singleton.mpr rfl)
    obtain ⟨hmeta, hdata⟩ := hb.sent y _ hsent
    have hlimit := code.protobuf.sizeLimit_le
    -- the message is within the limits, so its bytes are one frame
    have hbody : 12 + (code.protobuf.serializeMeta rpcMeta).length +
        (code.protobuf.serializeAsString m).length < 2 ^ 64 := by
      dsimp only at hmeta hdata
      omega
    have hconcerns : code.concerns side q y ⟨_, _, hmeta.trans_le hlimit, hbody⟩ =
        Concerns side q y rpcMeta := by
      simp only [concerns, hP.rpcMeta hmeta, Option.any_some]
    refine ⟨ms ++ [⟨_, _, hmeta.trans_le hlimit, hbody⟩], ?_, ?_, ?_⟩
    · have hheld : ((d.update y ((d.peer y).setSession s)).peer y.other).held =
          (d.peer y.other).held := Duplex.update_proj (f := Peer.held) y.other (by rfl)
      rw [Duplex.wire, hheld, Duplex.update_peer, List.flatMap_append, ← hms]
      show _ ++ s.outgoing = _
      rw [hs, Duplex.wire, List.append_assoc]
      simp [Session.send, Message.bytes]
    · intro m' hm'
      rcases List.mem_append.mp hm' with hm' | hm'
      · exact hcarries m' hm'
      · obtain rfl := List.mem_singleton.mp hm'
        exact ⟨rpcMeta, m, ha, rfl, rfl, hmeta, hdata⟩
    · rw [List.countP_append, hcount, List.countP_singleton, hconcerns]
      simp
  · -- in the other direction nothing is sent
    have hother : (d.update x ((d.peer x).setSession s)).peer y = d.peer y :=
      Duplex.update_peer_of_ne _ _ _ _ hy
    have hheld : ((d.update x ((d.peer x).setSession s)).peer y.other).held =
        (d.peer y.other).held := Duplex.update_proj (f := Peer.held) y.other (by rfl)
    refine ⟨ms, ?_, hcarries, ?_⟩
    · rw [Duplex.wire, hheld, hother]
      exact hms
    · rw [hcount]
      simp [hy]

section send

variable {rpcMeta : RpcMeta} {m : Msg} {s : Session V}

/-- A message of the call is sent. -/
theorem send (hP : code.protobuf.RoundTrips) (hd : code.OnItsWay side q π h d)
    (ha : Announced h x rpcMeta m)
    (hs : s = (d.peer x).session.send code.order (code.protobuf.serializeMeta rpcMeta)
      (code.protobuf.serializeAsString m))
    (hb : (d.update x ((d.peer x).setSession s)).Bounded code.protobuf.sizeLimit)
    (hc : Concerns side q x rpcMeta = true)
    (hπ : π.stage = CallStage.shown (x = side)) :
    code.OnItsWay side q ⟨CallStage.wire (x = side), π.object⟩ h
      (d.update x ((d.peer x).setSession s)) := by
  apply hd.carried
  · rw [hπ]
    exact onlyCarried_wire _
  · exact Duplex.update_proj (f := Peer.calls) side (by rfl)
  · exact Duplex.update_proj (f := fun p => p.client.mStubHandleMap.lookup q) side (by rfl)
  · exact Duplex.update_proj (f := fun p => p.server.replies) side.other (by rfl)
  · exact Duplex.update_proj (f := fun p => p.server.mReplyFlag) side.other (by rfl)
  · intro y
    obtain ⟨ms, hms, hcarries, hcount⟩ := hd.wire_send hP ha hs hb y
    refine ⟨ms, hms, hcarries, hcount.trans ?_⟩
    have hown : ∀ own own', CallStage.shown own ≠ CallStage.wire own' ∧
        (CallStage.wire own = CallStage.wire own' ↔ own' = own) := by decide
    simp only [hπ, hc, and_true, hown, if_false, Nat.zero_add, Side.decide_eq_iff]

/-- Another message is sent. -/
theorem send_other (hP : code.protobuf.RoundTrips) (hd : code.OnItsWay side q π h d)
    (ha : Announced h x rpcMeta m)
    (hs : s = (d.peer x).session.send code.order (code.protobuf.serializeMeta rpcMeta)
      (code.protobuf.serializeAsString m))
    (hb : (d.update x ((d.peer x).setSession s)).Bounded code.protobuf.sizeLimit)
    (hc : Concerns side q x rpcMeta = false) :
    Advances side d π (d.update x ((d.peer x).setSession s)) π ∧
      code.OnItsWay side q π h (d.update x ((d.peer x).setSession s)) := by
  have hpeer : ∀ {α : Type} (f : Peer queue D H T Msg V → α),
      (∀ p s, f (p.setSession s) = f p) → ∀ y,
      f ((d.update x ((d.peer x).setSession s)).peer y) = f (d.peer y) :=
    fun f hf y => Duplex.update_proj y (hf _ _)
  have hreplies := hpeer (fun p => p.server.replies) (fun _ _ => rfl) side.other
  have hflag := hpeer (fun p => p.server.mReplyFlag) (fun _ _ => rfl) side.other
  refine ⟨.of_replies hreplies.ge, hd.stays (hpeer Peer.calls (fun _ _ => rfl) side)
    (hpeer (fun p => p.client.mStubHandleMap.lookup q) (fun _ _ => rfl) side) (fun y => ?_) ?_ ?_⟩
  · obtain ⟨ms, hms, hcarries, hcount⟩ := hd.wire_send hP ha hs hb y
    refine ⟨ms, hms, hcarries, hcount.trans ?_⟩
    simp [hc]
  · rw [hreplies, hflag]
    exact hd.object
  · rw [hreplies, hflag]
    exact hd.unmade

end send

end OnItsWay

/-- A delivery changes nothing but the bytes. -/
theorem delivered_proj {α : Type} {f : Peer queue D H T Msg V → α} (n : ℕ)
    (hheld : ∀ p held, f { p with held := held } = f p)
    (houtgoing : ∀ p outgoing, f (p.setSession { p.session with outgoing := outgoing }) = f p)
    (y : Side) : f ((code.delivered x n d).peer y) = f (d.peer y) := by
  rcases Side.eq_or_eq_other y x with rfl | rfl
  · rw [delivered_peer, hheld]
  · rw [delivered_peer_other, houtgoing]

/-- What `opHandle` writes down of a message says whether the message concerns the call. -/
theorem countP_collect (side : Side) (q : UInt64) (x : Side) (ms : List Message)
    (log : List (RpcMeta × StringView)) :
    (runHandler (opHandle code.order code.protobuf.parseMeta collect)
      (ms.map (Message.packet code.order)) log).countP (fun y => Concerns side q x y.1) =
        log.countP (fun y => Concerns side q x y.1) + ms.countP (code.concerns side q x) := by
  induction ms generalizing log with
  | nil => rfl
  | cons m ms ih =>
      show (runHandler _ (ms.map (Message.packet code.order)) (opHandle _ _ _ _ log).2).countP _ = _
      rw [ih, opHandle_message, List.countP_cons, concerns]
      cases code.protobuf.parseMeta m.rpcMeta m.rpcMeta.length with
      | none => rfl
      | some rpcMeta =>
          simp only [collect, List.countP_append, List.countP_singleton, Option.any_some]
          omega

/-- The messages of the call that a chunk completes are those that are missing on the wire afterwards. -/
theorem OnItsWay.wire_delivered (hd : code.OnItsWay side q π h d) {n : ℕ}
    (hlen : ((d.peer x).held ++ chunk x n d).length < 2 ^ 64) (y : Side) :
    ∃ ms : List Message, (code.delivered x n d).wire y = ms.flatMap (Message.bytes code.order) ∧
      (∀ m ∈ ms, code.Carries h y m) ∧
      ms.countP (code.concerns side q y) +
          (if y = x.other then (code.arrive x n d).2.countP (fun m => Concerns side q x.other m.1) else 0) =
        if π.stage = CallStage.wire (y = side) then 1 else 0 := by
  rcases Side.eq_or_eq_other y x with rfl | rfl
  · obtain ⟨ms, hms, hcarries, hcount⟩ := hd.wire y
    refine ⟨ms, ?_, hcarries, by simpa using hcount⟩
    rw [Duplex.wire, delivered_peer, delivered_peer_other]
    exact hms
  · obtain ⟨ms, hms, hcarries, hcount⟩ := hd.wire x.other
    -- what is held and what is on the wire are together the bytes of whole messages
    have hbytes : (d.peer x).held ++ (chunk x n d ++ (d.peer x.other).session.outgoing.drop n) =
        ms.flatMap (Message.bytes code.order) := by
      rw [← hms, Duplex.wire, Side.other_other, chunk, List.take_append_drop]
    -- some of these come out as messages, the others stay as bytes
    obtain ⟨done, left, held', rfl, hleft, hreceive⟩ :=
      @receive_messages _ code.order code.protobuf.parseMeta collect _ _ _ _ hlen hbytes []
    have harrive : code.arrive x n d = (held', _) := congrArg Prod.snd hreceive
    have hlog : (code.arrive x n d).2.countP (fun m => Concerns side q x.other m.1) =
        done.countP (code.concerns side q x.other) := by
      rw [harrive]
      exact (countP_collect side q x.other done []).trans (Nat.zero_add _)
    refine ⟨left, ?_, fun m hm => hcarries m (List.mem_append_right done hm), ?_⟩
    · rw [Duplex.wire, Side.other_other, delivered_peer, delivered_peer_other, harrive]
      exact hleft
    · rw [← hcount, List.countP_append, if_pos rfl, hlog, Nat.add_comm]

/-- A chunk may bring the message of the call along. -/
theorem OnItsWay.deliver (hd : code.OnItsWay side q π h d) {n : ℕ}
    (hlen : ((d.peer x).held ++ chunk x n d).length < 2 ^ 64) :
    ∃ b : Bool, (code.arrive x n d).2.countP (fun y => Concerns side q x.other y.1) = b.toNat ∧
      (b = true → π.stage = CallStage.wire (x.other = side)) ∧
      code.OnItsWay side q ⟨if b then CallStage.come (x.other = side) else π.stage, π.object⟩ h
        (code.delivered x n d) := by
  have hwire := hd.wire_delivered hlen
  have hsame : ∀ {α : Type} (f : Peer queue D H T Msg V → α),
      (∀ p held, f { p with held := held } = f p) →
      (∀ p outgoing, f (p.setSession { p.session with outgoing := outgoing }) = f p) →
      ∀ y, f ((code.delivered x n d).peer y) = f (d.peer y) :=
    fun f hheld houtgoing => delivered_proj n hheld houtgoing
  have hreplies := hsame (fun p => p.server.replies) (fun _ _ => rfl) (fun _ _ => rfl) side.other
  have hflag := hsame (fun p => p.server.mReplyFlag) (fun _ _ => rfl) (fun _ _ => rfl) side.other
  have hcalls := hsame Peer.calls (fun _ _ => rfl) (fun _ _ => rfl) side
  have hstub := hsame (fun p => p.client.mStubHandleMap.lookup q) (fun _ _ => rfl) (fun _ _ => rfl) side
  -- there is one message of the call in this direction at most, and only at one stage
  obtain ⟨b, hb, hstage⟩ : ∃ b : Bool,
      (code.arrive x n d).2.countP (fun y => Concerns side q x.other y.1) = b.toNat ∧
        (b = true → π.stage = CallStage.wire (x.other = side)) := by
    obtain ⟨ms, -, -, hcount⟩ := hwire x.other
    rw [if_pos rfl] at hcount
    split at hcount
    · next hstage =>
      rcases Nat.eq_zero_or_pos
        ((code.arrive x n d).2.countP fun y => Concerns side q x.other y.1) with hzero | hpos
      · exact ⟨false, hzero, nofun⟩
      · exact ⟨true, by simp only [Bool.toNat_true]; omega, fun _ => hstage⟩
    · exact ⟨false, by simp only [Bool.toNat_false]; omega, nofun⟩
  refine ⟨b, hb, hstage, ?_⟩
  rw [hb] at hwire
  cases b with
  | false =>
      refine hd.stays hcalls hstub (fun y => ?_) ?_ ?_
      · obtain ⟨ms, hms, hcarries, hcount⟩ := hwire y
        exact ⟨ms, hms, hcarries, by simpa using hcount⟩
      · rw [hreplies, hflag]
        exact hd.object
      · rw [hreplies, hflag]
        exact hd.unmade
  | true =>
      show code.OnItsWay side q ⟨CallStage.come (x.other = side), π.object⟩ h _
      refine hd.carried ?_ hcalls hstub hreplies hflag fun y => ?_
      · rw [hstage rfl]
        exact onlyCarried_come _
      · obtain ⟨ms, hms, hcarries, hcount⟩ := hwire y
        refine ⟨ms, hms, hcarries, ?_⟩
        -- having come is a stage past the wire, in this direction only
        have hown : ∀ own own', CallStage.come own ≠ CallStage.wire own' ∧
            (CallStage.wire own = CallStage.wire own' ↔ own' = own) := by decide
        simp only [hstage rfl, hown, if_false, Side.decide_eq_iff, Bool.toNat_true] at hcount ⊢
        by_cases hy : y = x.other
        · simp only [hy, if_true] at hcount ⊢
          omega
        · simpa [hy] using hcount

/-! ## Sections of the client -/

section client

variable {p : Peer queue D H T Msg V}

/-- As long as no call has drawn the id, the call is new. -/
theorem OnItsWay.stage_eq_new (hd : code.OnItsWay side q π h d)
    (hlen : (d.peer side).calls.length ≤ q.toNat) : π.stage = .new := by
  have hnone : (d.peer side).calls[q.toNat]? = none := List.getElem?_eq_none hlen
  by_contra hnew
  by_cases honeWay : π.stage = .oneWay
  · obtain ⟨r, hr, -⟩ := hd.oneWay honeWay
    rw [hnone] at hr
    cases hr
  · have hrank : 0 < π.stage.rank := by
      revert hnew honeWay
      generalize π.stage = s
      cases s <;> decide
    obtain ⟨r, hr, -⟩ := hd.call hrank
    rw [hnone] at hr
    cases hr

/-- The call draws its id. -/
theorem OnItsWay.allocate (hd : code.OnItsWay side q π h d)
    (hlen : (d.peer side).calls.length = q.toNat) (r : CallRequest D H T Msg)
    (hcalls : p.calls = (d.peer side).calls ++ [r]) (hheld : p.held = (d.peer side).held)
    (hsession : p.session.outgoing = (d.peer side).session.outgoing) :
    code.OnItsWay side q ⟨if r.handle.isSome then .drawn else .oneWay, π.object⟩ h
      (d.update side p) := by
  have hnew := hd.stage_eq_new hlen.le
  have hcall : ((d.update side p).peer side).calls[q.toNat]? = some r := by
    rw [Duplex.update_peer, hcalls, ← hlen]
    exact List.getElem?_concat_length
  have hserver : (d.update side p).peer side.other = d.peer side.other :=
    Duplex.update_peer_of_ne _ _ _ _ side.other_ne
  have hannounced := hd.announced
  have hhandled := hd.handled
  have hwire := hd.wire
  rw [hnew] at hannounced hhandled hwire
  -- a call that is new has neither been shown nor sent
  have hunshown : ∀ own, CallStage.new ≠ CallStage.wire own ∧
      ((CallStage.shown own).rank ≤ CallStage.new.rank ↔ False) := by decide
  simp only [hunshown, if_false] at hannounced hwire
  have hstage : ∀ b own : Bool, (if b then CallStage.drawn else .oneWay) ≠ .done ∧
      (if b then CallStage.drawn else .oneWay) ≠ CallStage.wire own ∧
      ((CallStage.shown own).rank ≤ (if b then CallStage.drawn else .oneWay).rank ↔ False) := by decide
  exact
    { new := by split <;> simp
      oneWay := fun honeWay => by
        refine ⟨r, hcall, ?_⟩
        simpa using honeWay
      call := fun hrank => by
        refine ⟨r, hcall, ?_⟩
        by_contra hnone
        simp [hnone, CallStage.rank] at hrank
      stub := by split <;> simp [CallStage.waits, CallStage.rank]
      announced := fun y => by simpa [hstage] using hannounced y
      handled := by simpa [(hstage _ true).1] using hhandled
      wire := fun y => by
        rw [Duplex.wire_update hheld hsession]
        simpa [hstage] using hwire y
      object := by split <;> simp [CallStage.rank]
      unmade := by
        rw [hserver]
        exact hd.unmade }

/-- Another call of the client draws an id. -/
theorem OnItsWay.allocate_other (hd : code.OnItsWay side q π h d)
    (hlen : (d.peer side).calls.length ≠ q.toNat) (r : CallRequest D H T Msg)
    (hcalls : p.calls = (d.peer side).calls ++ [r])
    (hstub : p.client.mStubHandleMap = (d.peer side).client.mStubHandleMap)
    (hheld : p.held = (d.peer side).held)
    (hsession : p.session.outgoing = (d.peer side).session.outgoing) :
    Advances side d π (d.update side p) π ∧ code.OnItsWay side q π h (d.update side p) := by
  have hserver : (d.update side p).peer side.other = d.peer side.other :=
    Duplex.update_peer_of_ne _ _ _ _ side.other_ne
  -- the list of calls only grows, so what is known of an earlier one stays true
  have hlater : ∀ {r'}, (d.peer side).calls[q.toNat]? = some r' →
      ((d.update side p).peer side).calls[q.toNat]? = some r' := by
    intro r' hr'
    obtain ⟨hlt, -⟩ := List.getElem?_eq_some_iff.mp hr'
    rw [Duplex.update_peer, hcalls, List.getElem?_append_left hlt, hr']
  refine ⟨.of_replies (by rw [hserver]), ?_⟩
  exact
    { new := fun hnew => by
        have hle := hd.new hnew
        rw [Duplex.update_peer, hcalls, List.length_append, List.length_singleton]
        omega
      oneWay := fun honeWay => by
        obtain ⟨r', hr', hnone⟩ := hd.oneWay honeWay
        exact ⟨r', hlater hr', hnone⟩
      call := fun hrank => by
        obtain ⟨r', hr', hsome⟩ := hd.call hrank
        exact ⟨r', hlater hr', hsome⟩
      stub := by
        rw [Duplex.update_peer, hstub]
        exact hd.stub
      announced := hd.announced
      handled := hd.handled
      wire := fun y => by
        rw [Duplex.wire_update hheld hsession]
        exact hd.wire y
      object := by
        rw [hserver]
        exact hd.object
      unmade := by
        rw [hserver]
        exact hd.unmade }

/-- The stub of the call is put into the map, or taken out of it. -/
theorem OnItsWay.moveStub (hd : code.OnItsWay side q π h d) {s : CallStage}
    (hstage : π.stage = .drawn ∧ s = .waiting ∨ π.stage = .received ∧ s = .taken)
    (hcalls : p.calls = (d.peer side).calls) (hheld : p.held = (d.peer side).held)
    (hsession : p.session.outgoing = (d.peer side).session.outgoing)
    (hstub : s = .waiting → ∃ stub, p.client.mStubHandleMap.lookup q = some stub ∧
      stub.handle.isSome) : code.OnItsWay side q ⟨s, π.object⟩ h (d.update side p) := by
  have hserver : (d.update side p).peer side.other = d.peer side.other :=
    Duplex.update_peer_of_ne _ _ _ _ side.other_ne
  have hannounced := hd.announced
  have hhandled := hd.handled
  have hwire := hd.wire
  have hobject := hd.object
  -- the two stages differ in nothing that the events, the wire or the service can tell
  have hsame : 0 < π.stage.rank ∧ 0 < s.rank ∧ (s.waits → s = .waiting) ∧
      (∀ own, (CallStage.shown own).rank ≤ π.stage.rank ↔ (CallStage.shown own).rank ≤ s.rank) ∧
      (π.stage = .done ↔ s = .done) ∧ (∀ own, π.stage = CallStage.wire own ↔ s = CallStage.wire own) ∧
      (6 ≤ π.stage.rank ↔ 6 ≤ s.rank) ∧ (7 ≤ π.stage.rank ↔ 7 ≤ s.rank) := by
    obtain ⟨hπ, rfl⟩ | ⟨hπ, rfl⟩ := hstage
    · rw [hπ]
      decide
    · rw [hπ]
      decide
  obtain ⟨hrank, hrank', hwaits, hshown, hdone, hwires, hsix, hseven⟩ := hsame
  apply hd.moved ⟨hrank, hrank'⟩
  · rw [Duplex.update_peer, hcalls]
  · intro hs
    rw [Duplex.update_peer]
    exact hstub (hwaits hs)
  · intro y
    simp only [hannounced, hshown]
  · simp only [hhandled, hdone]
  · intro y
    rw [Duplex.wire_update hheld hsession]
    simpa only [hwires] using hwire y
  · rw [hserver]
    simpa only [hsix, hseven] using hobject
  · rw [hserver]
    exact hd.unmade

end client

/-! ## Sections of the service -/

section service

variable {s : Server (Session V)}

/-- The call goes on where its requests are served. -/
theorem OnItsWay.serve (hd : code.OnItsWay side q π h d) (stage : CallStage) (object : ℕ)
    (hstage : π.stage = .arrived ∧ stage = .opened ∨ π.stage = .opened ∧ stage = .answering)
    (hsession : s.user = (d.peer side.other).session)
    (hobject : object < s.replies ∧ s.mReplyFlag object = decide (7 ≤ stage.rank))
    (hunmade : ∀ n, s.replies ≤ n → s.mReplyFlag n = false) :
    code.OnItsWay side q ⟨stage, object⟩ h
      (d.update side.other { d.peer side.other with server := s }) := by
  have hclient : (d.update side.other { d.peer side.other with server := s }).peer side =
      d.peer side := Duplex.update_peer_of_ne _ _ _ _ side.ne_other
  have houtgoing : ({ d.peer side.other with server := s } : Peer queue D H T Msg V).session.outgoing =
      (d.peer side.other).session.outgoing := congrArg Session.outgoing hsession
  have hannounced := hd.announced
  have hhandled := hd.handled
  have hwire := hd.wire
  -- only the service notices that the call moves on
  have hsame : 0 < π.stage.rank ∧ 0 < stage.rank ∧ π.stage.waits ∧
      (∀ own, (CallStage.shown own).rank ≤ π.stage.rank ↔ (CallStage.shown own).rank ≤ stage.rank) ∧
      (π.stage = .done ↔ stage = .done) ∧
      (∀ own, π.stage = CallStage.wire own ↔ stage = CallStage.wire own) := by
    obtain ⟨hπ, rfl⟩ | ⟨hπ, rfl⟩ := hstage
    · rw [hπ]
      decide
    · rw [hπ]
      decide
  obtain ⟨hrank, hrank', hwaits, hshown, hdone, hwires⟩ := hsame
  apply hd.moved ⟨hrank, hrank'⟩
  · rw [hclient]
  · intro _
    rw [hclient]
    exact hd.stub hwaits
  · intro y
    simp only [hannounced, hshown]
  · simp only [hhandled, hdone]
  · intro y
    rw [Duplex.wire_update (by rfl) houtgoing]
    simpa only [hwires] using hwire y
  · intro _
    rw [Duplex.update_peer]
    exact hobject
  · rw [Duplex.update_peer]
    exact hunmade

/-- Something happens to the reply objects, but not to the one of the call. -/
theorem OnItsWay.serve_other (hd : code.OnItsWay side q π h d)
    (hsession : s.user = (d.peer side.other).session)
    (hreplies : (d.peer side.other).server.replies ≤ s.replies)
    (hflag : 6 ≤ π.stage.rank →
      s.mReplyFlag π.object = (d.peer side.other).server.mReplyFlag π.object)
    (hunmade : ∀ n, s.replies ≤ n → s.mReplyFlag n = false) :
    Advances side d π (d.update side.other { d.peer side.other with server := s }) π ∧
      code.OnItsWay side q π h (d.update side.other { d.peer side.other with server := s }) := by
  have hclient : (d.update side.other { d.peer side.other with server := s }).peer side =
      d.peer side := Duplex.update_peer_of_ne _ _ _ _ side.ne_other
  have houtgoing : ({ d.peer side.other with server := s } : Peer queue D H T Msg V).session.outgoing =
      (d.peer side.other).session.outgoing := congrArg Session.outgoing hsession
  refine ⟨.of_replies ?_, hd.stays ?_ ?_ (fun y => ?_) (fun hrank => ?_) ?_⟩
  · rw [Duplex.update_peer]
    exact hreplies
  · rw [hclient]
  · rw [hclient]
  · rw [Duplex.wire_update (by rfl) houtgoing]
    exact hd.wire y
  · obtain ⟨hlt, hset⟩ := hd.object hrank
    rw [Duplex.update_peer]
    exact ⟨hlt.trans_le hreplies, (hflag hrank).trans hset⟩
  · rw [Duplex.update_peer]
    exact hunmade

end service

end DuplexCode

end passage

end GayRpc
