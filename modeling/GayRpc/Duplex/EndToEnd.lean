import GayRpc.Client.AtMostOnce
import GayRpc.Duplex.Programs

/-!
# Requests and responses, from end to end

A response handle runs for the call whose request made it run: the record of the ledger gives that the
request was sent and answered, and the units of the budget that the handle runs only once.

The correspondence is put together of four things about a handle that has been called, in any run of two
peers and whatever else happens (`request_response_correspondence`):

* one request of this client with this id has been shown, and it is the one of the call;
* the method of that request was given a reply object, and the first call on that object was answered;
* the handle was given what that call was made with: the message of `reply`, or the code and the reason of
  `error`, and nothing else;
* the handle is called only once.

Nothing is assumed about the order in which bytes, threads and calls come, and the byte order, the chunks
and the two services are arbitrary.
-/

namespace GayRpc

open Prog Pool

section world

variable {queue : PriorityQueue WaitResponseTimer WaitResponseTimer.le} {D H T Msg Ctx V : Type}
  {code : DuplexCode D Msg Ctx V}

theorem DuplexCode.Fits.fresh (clock : Side → Int64) (user : Side → V) :
    code.Fits [] (.fresh code.serviceID clock user : Duplex queue D H T Msg V) where
  bounded :=
    ⟨fun _ => Nat.two_pow_pos 64,
      fun _ => by simp [Duplex.fresh, Peer.fresh, Peer.session, Server.user]⟩
  sound side :=
    { manager := rfl
      count := rfl
      known := fun h => by simp [Duplex.fresh, Peer.fresh] at h
      consistent := .fresh
      stub := fun h => by simp [Duplex.fresh, Peer.fresh] at h }
  wire side := ⟨[], rfl, by simp⟩
  requested h := by simp at h
  answered h := by simp at h

/-- Whatever happens on a connection keeps the record of it. -/
theorem duplexWorld_respects (hP : code.protobuf.RoundTrips) :
    (duplexWorld code : World (Duplex queue D H T Msg V) _ _ _).Respects code.onRecord where
  bound _ h := h
  env h d d' hdrift hb hd := by
    -- only the clock and the state of the user drift
    have hsame : ∀ {α : Type} (f : Peer queue D H T Msg V → α),
        (∀ p clock user, f { p.setSession (p.session.setUser user) with clock := clock } = f p) →
        ∀ x, f (d'.peer x) = f (d.peer x) := by
      intro α f hf x
      obtain ⟨clock, user, hx⟩ := hdrift x
      rw [hx, hf]
    refine DuplexCode.Fits.of_bytes hd hb (hsame Peer.manager fun _ _ _ => rfl)
      (hsame Peer.client fun _ _ _ => rfl) (hsame Peer.calls fun _ _ _ => rfl) fun x => ?_
    rw [hsame Peer.held (fun _ _ _ => rfl) x.other,
      hsame (fun p => p.session.outgoing) (fun _ _ _ => rfl) x]
    exact hd.wire x
  spawn p hp h d := by
    cases hp with
    | request side r => exact honors_request r
    | deliver side n => exact honors_deliver hP n

/-! ## At most once -/

def DuplexEvent.runs : DuplexEvent Msg → Option (Side × UInt64)
  | client side e => e.runs.map fun q => (side, q)
  | service _ _ => none

theorem DuplexEvent.runs_client {x side : Side} {e : ClientEvent Msg} {q : UInt64} :
    (client x e).runs = some (side, q) ↔ x = side ∧ e.runs = some q := by
  show e.runs.map (fun q => (x, q)) = _ ↔ _
  simp [Option.map_eq_some_iff, and_comm]

/-- The units of the call `q` of one side. -/
def sideBudget (side : Side) (q : UInt64) : Budget (Duplex queue D H T Msg V) (DuplexEvent Msg) where
  inv d := (d.peer side).client.Consistent
  bound d := (d.peer side).client.mSequenceID < 2 ^ 64
  potential d := (d.peer side).client.unit q
  cost e := if e.runs = some (side, q) then 1 else 0

section affords

variable {side x : Side} {q : UInt64}

/-- What a client can afford by itself, it can afford here. -/
theorem affords_client {p : ClientProg queue D H T Msg (Session V)}
    (hp : Affords (unitBudget q) 0 0 p) :
    Affords (sideBudget side q : Budget (Duplex queue D H T Msg V) _) 0 0
      (Duplex.onClient x p) := by
  -- what the client of the other side does costs this side nothing
  by_cases hx : side = x
  · subst hx
    refine hp.within (fun _ h => h) (fun d h _ hh => ?_) (fun d h hb => ?_) (fun _ => rfl)
      (fun d h => ?_) fun e => ?_
    · show ((d.update side _).peer side).client.Consistent
      rw [Duplex.update_peer]
      exact hh
    · have hbound : ((d.update side ((d.peer side).setHost h)).peer side).client.mSequenceID < 2 ^ 64 := hb
      rw [Duplex.update_peer] at hbound
      exact hbound
    · show ((d.update side _).peer side).client.unit q = _
      rw [Duplex.update_peer]
      rfl
    · simp only [sideBudget, unitBudget, DuplexEvent.runs_client, true_and]
      exact Nat.le_add_right _ _
  · have hpeer : ∀ (d : Duplex queue D H T Msg V) p, (d.update x p).peer side = d.peer side :=
      fun d p => d.update_peer_of_ne x side p hx
    refine Affords.elsewhere (fun d h hd => ?_) (fun d h => ?_) (fun e => if_neg ?_) p
    · show ((d.update x _).peer side).client.Consistent
      rw [hpeer]
      exact hd
    · show ((d.update x _).peer side).client.unit q = _
      rw [hpeer]
      rfl
    · rw [DuplexEvent.runs_client]
      exact fun h => hx h.1.symm

/-- A service has no units, and needs none. -/
theorem affords_service (p : ServerProg (Session V) Msg (Except Exn Unit)) :
    Affords (sideBudget side q : Budget (Duplex queue D H T Msg V) _) 0 0
      (Duplex.onService x p) := by
  have hclient : ∀ (d : Duplex queue D H T Msg V) s,
      ((d.update x { d.peer x with server := s }).peer side).client = (d.peer side).client :=
    fun d s => Duplex.update_proj (f := Peer.client) side (by rfl)
  refine Affords.elsewhere (fun d s hd => ?_) (fun d s => ?_) (fun e => ?_) p
  · show ((d.update x _).peer side).client.Consistent
    rw [hclient]
    exact hd
  · show ((d.update x _).peer side).client.unit q = _
    rw [hclient]
    rfl
  · simp [sideBudget, DuplexEvent.runs]

theorem invokesAtMostOnce_inbound :
    InvokesAtMostOnce (code.client x : ClientCode D H T Msg Ctx (Session V)).inbound := by
  intro args
  refine Affords.wraps (fun _ _ _ _ _ _ => ⟨trivial, Nat.le_refl 0⟩) ?_
    (makeInterceptor_passes (onSession_passes _) args)
  exact ⟨0, Nat.le_refl 1, fun _ => trivial⟩

theorem affords_request (r : KnownCall code x H T) :
    Affords (sideBudget side q : Budget (Duplex queue D H T Msg V) _) 0 0 (code.request x r) := by
  have hclient : ∀ d : Duplex queue D H T Msg V,
      ((d.note x r.request).peer side).client = (d.peer side).client :=
    fun d => Duplex.update_proj (f := Peer.client) side (by rfl)
  refine (affords_client (affords_call _ _)).noting (fun d hd => ?_) (fun d hb => ?_) fun d => ?_
  · show ((d.note x r.request).peer side).client.Consistent
    rw [hclient]
    exact hd
  · have hbound : ((d.note x r.request).peer side).client.mSequenceID < 2 ^ 64 := hb
    rw [hclient] at hbound
    exact hbound
  · show ((d.note x r.request).peer side).client.unit q = _
    rw [hclient]
    rfl

theorem affords_handleRpcMsg (rpcMeta : RpcMeta) (data : StringView) :
    Affords (sideBudget side q : Budget (Duplex queue D H T Msg V) _) 0 0
      (code.handleRpcMsg x rpcMeta data) := by
  intro d d' hd _ hd'
  obtain rfl := Option.some.inj hd'
  refine ⟨hd, 0, Nat.le_refl _, ?_⟩
  show Affords _ 0 0 (code.callHandler x rpcMeta data _)
  generalize (d.peer x).manager.handleRpcMsg rpcMeta = found
  rcases found with e | (_ | _)
  · trivial
  · exact affords_client (affords_processRpcResponse _ invokesAtMostOnce_inbound _ _ _)
  · exact affords_service _

theorem affords_handleMessages (messages : List (RpcMeta × StringView)) :
    Affords (sideBudget side q : Budget (Duplex queue D H T Msg V) _) 0 0
      (code.handleMessages x messages) := by
  induction messages with
  | nil => trivial
  | cons m messages ih =>
      refine Affords.bind (n := 0) (affords_handleRpcMsg m.1 m.2) fun _ => ih

theorem affords_deliver (n : ℕ) :
    Affords (sideBudget side q : Budget (Duplex queue D H T Msg V) _) 0 0 (code.deliver x n) := by
  intro d d' hd _ hd'
  obtain ⟨-, hd'⟩ := Option.ite_none_right_eq_some.mp hd'
  obtain rfl := Option.some.inj hd'
  have hclient : ((code.delivered x n d).peer side).client = (d.peer side).client := by
    rcases Side.eq_or_eq_other side x with rfl | rfl
    · rw [DuplexCode.delivered_peer]
    · rw [DuplexCode.delivered_peer_other]
      rfl
  refine ⟨?_, 0, ?_, affords_handleMessages _⟩
  · show ((code.delivered x n d).peer side).client.Consistent
    rw [hclient]
    exact hd
  · show 0 + ((code.delivered x n d).peer side).client.unit q ≤ _
    rw [hclient]
    exact Nat.le_refl _

theorem duplexWorld_free :
    (duplexWorld code : World (Duplex queue D H T Msg V) _ _ _).Free (sideBudget side q) 0 where
  bound _ h := h.calls side
  env_inv d d' hdrift hd := by
    obtain ⟨clock, user, hside⟩ := hdrift side
    show (d'.peer side).client.Consistent
    rw [hside]
    exact hd
  env_potential d d' hdrift _ := by
    obtain ⟨clock, user, hside⟩ := hdrift side
    show (d'.peer side).client.unit q ≤ _
    rw [hside]
    exact Nat.le_refl _
  spawn p hp := by
    cases hp with
    | request x r => exact affords_request r
    | deliver x n => exact affords_deliver n

end affords

theorem worth_duplex_fresh (side : Side) (q : UInt64) (clock : Side → Int64) (user : Side → V) :
    (⟨.fresh code.serviceID clock user, []⟩ : Pool (Duplex queue D H T Msg V) (DuplexEvent Msg) Empty
      (Except Exn Unit)).Worth (sideBudget side q) 0 1 :=
  ⟨.fresh, 0, (Nat.zero_add _).trans_le (BaseClient.unit_fresh q).le, trivial⟩

/-! ## The correspondence -/

/-- Two requests of one client with one id are the same request. -/
theorem DuplexCode.Fits.request_unique {h : List (DuplexEvent Msg)} {d : Duplex queue D H T Msg V}
    (hd : code.Fits h d) {side : Side} {request request' : RpcMeta} {m m' : Msg}
    (hr : .client side (.request request m) ∈ h) (hr' : .client side (.request request' m') ∈ h)
    (hid : request'.requestInfo.sequenceId = request.requestInfo.sequenceId) :
    request' = request ∧ m' = m := by
  have hlt : ∀ {q : ℕ} {r}, (d.peer side).calls[q]? = some r → q < 2 ^ 64 := by
    intro q r hq
    obtain ⟨hlen, -⟩ := List.getElem?_eq_some_iff.mp hq
    rw [(hd.sound side).count] at hlen
    exact hlen.trans (hd.bounded.calls side)
  obtain ⟨q, r, hq, rfl, rfl⟩ := hd.requested hr
  obtain ⟨q', r', hq', rfl, rfl⟩ := hd.requested hr'
  have hq'' : q' = q := by
    have hnat := congrArg UInt64.toNat hid
    have hofNat : (UInt64.ofNat q').toNat = (UInt64.ofNat q).toNat := hnat
    rwa [UInt64.toNat_ofNat_of_lt' (hlt hq'), UInt64.toNat_ofNat_of_lt' (hlt hq)] at hofNat
  subst hq''
  obtain rfl := Option.some.inj (hq.symm.trans hq')
  exact ⟨rfl, rfl⟩

/-- The correspondence of requests and responses, in every run of two peers, whatever the order of calls,
deliveries and replies: no call has its handle run twice; and when a handle runs, then its call had sent
a request, the only one with its id, after which a reply object made of that request was called at the
other side, for the first time, and the response to this call was sent; what the handle is given is what
the call on the reply object stands for. -/
theorem request_response_correspondence (code : DuplexCode D Msg Ctx V)
    (hP : code.protobuf.RoundTrips) {clock : Side → Int64} {user : Side → V}
    {es : List (DuplexEvent Msg)}
    {b : Pool (Duplex queue D H T Msg V) (DuplexEvent Msg) Empty (Except Exn Unit)}
    (hrun : Run (duplexWorld code) ⟨.fresh code.serviceID clock user, []⟩ es b) :
    (∀ side q, (es.filter fun e => e.runs = some (side, q)).length ≤ 1) ∧
    ∀ side received owner message error before after,
      es = before ++ .client side (.handle received owner message error) :: after →
      received = owner ∧
      ∃ (object : BaseReply) (m : Msg) (method : RpcMethod code.protobuf Ctx V)
        (call : ReplyCall Msg Unit) (l₁ l₂ l₃ l₄ : List (DuplexEvent Msg)),
        before = l₁ ++ .client side (.request object.mRequestMeta m) ::
          (l₂ ++ .service side.other (.called object call true) ::
            (l₃ ++ .service side.other (.response (some object) (call.rpcMeta object.mRequestMeta)
              (call.message code.protobuf)) :: l₄)) ∧
        object.mRequestMeta.requestInfo.sequenceId = owner ∧
        (∀ request' m', .client side (.request request' m') ∈ es →
          request'.requestInfo.sequenceId = owner → request' = object.mRequestMeta ∧ m' = m) ∧
        (code.peer side.other).serviceHandlerMapById.dlookup
          object.mRequestMeta.requestInfo.intMethod = some method ∧
        (message, error) = call.received code.protobuf method.responseType := by
  obtain ⟨hb, hadmits⟩ := hrun.honored (duplexWorld_respects hP) ⟨.fresh clock user, by simp⟩
  constructor
  · intro side q
    have hcost : ∀ e : DuplexEvent Msg, decide (e.runs = some (side, q)) →
        1 ≤ (sideBudget side q : Budget (Duplex queue D H T Msg V) _).cost e := by
      intro e he
      simp [sideBudget, of_decide_eq_true he]
    simpa using hrun.mul_length_filter_le duplexWorld_free (worth_duplex_fresh side q clock user) _ 1
      hcost
  · intro side received owner message error before after hes
    -- the handle goes back to a response
    obtain ⟨-, -, howner, object, method, call, hid, hgave, hreceived⟩ := hadmits before _ after hes
    obtain ⟨l, l₄, rfl⟩ := List.mem_iff_append.mp hgave.sent
    -- the response goes back to the first call on its reply object, which is the one on record
    obtain ⟨-, -, object', call', horigin, hcalled, -, hmeta, hmessage⟩ :=
      hadmits l (.service side.other (.response (some object) (call.rpcMeta object.mRequestMeta)
        (call.message code.protobuf))) (l₄ ++ .client side (.handle received owner message error) ::
          after) (by rw [hes]; simp)
    obtain rfl := Option.some.inj horigin
    obtain rfl := ReplyCall.ext_of_sent _ hmeta hmessage
    obtain ⟨l, l₃, rfl⟩ := List.mem_iff_append.mp hcalled
    -- and the call to a request
    obtain ⟨-, -, -, ⟨⟨m, hrequest⟩, -⟩, -⟩ :=
      hadmits l (.service side.other (.called object call true)) (l₃ ++ _) (by
        rw [hes, List.append_assoc, List.append_assoc]
        rfl)
    rw [Side.other_other] at hrequest
    obtain ⟨l₁, l₂, rfl⟩ := List.mem_iff_append.mp hrequest
    refine ⟨howner, object, m, method, call, l₁, l₂, l₃, l₄, by simp, hid, ?_, hgave.asked.known,
      hreceived⟩
    -- no other request of this side has the id
    intro request' m' hmem hid'
    have hmem' : .client side (.request object.mRequestMeta m) ∈ es := by
      rw [hes]
      simp
    exact hb.inv.request_unique hmem' hmem (hid'.trans hid.symm)

end world

/-- The meta of the first call of method 2. -/
def echoRequest : RpcMeta := makeRequestRpcMeta 0 1 2 .binary true

/-- What is too long for a message. -/
@[irreducible] def oversized : List UInt8 := List.replicate (2 ^ 31) 0

theorem length_oversized : oversized.length = 2 ^ 31 := by
  unfold oversized
  exact List.length_replicate

/-- Messages are their bytes, and the metas are those of a call of method 2 and of its response. -/
def echoProtobuf : Protobuf Unit (List UInt8) where
  parseFromArray _ bytes size := some (bytes.take size.toNat)
  jsonStringToMessage _ _ := .error ""
  serializeAsString m := m
  typeName _ := ""
  OfClass _ _ := True
  default _ := []
  parseMeta bytes _ :=
    -- the two metas of an echo, as protobuf writes them; no other one is sent
    if bytes = [16, 1, 34, 4, 8, 2, 24, 1] then some echoRequest
    else if bytes = [8, 1, 16, 1, 42, 0] then some (replyMeta echoRequest)
    else none
  serializeMeta m :=
    if m = echoRequest then [16, 1, 34, 4, 8, 2, 24, 1]
    else if m = replyMeta echoRequest then [8, 1, 16, 1, 42, 0]
    else oversized
  sizeLimit := 2 ^ 31 - 16
  sizeLimit_le := Nat.sub_le _ _
  emptyMeta := []

theorem echoProtobuf_roundTrips : echoProtobuf.RoundTrips where
  message _ _ := by simp [echoProtobuf]
  rpcMeta {m} hlt := by
    by_cases h : m = echoRequest
    · simp [echoProtobuf, h]
    · by_cases h' : m = replyMeta echoRequest
      · subst h'
        simp only [echoProtobuf, if_neg h]
        rfl
      · exfalso
        simp only [echoProtobuf, if_neg h, if_neg h', length_oversized] at hlt
        omega
  serialize_emptyMeta := rfl
  parse_nil _ := rfl

/-- The method answers from another thread, as soon as the user is ready. -/
def echoMethod : RpcMethod echoProtobuf Unit Bool where
  requestType := ()
  responseType := ()
  run m _ :=
    .fork (.act (fun ready => if ready then some ready else none) fun _ =>
        .ask ⟨.reply m (), trivial⟩ .ret)
      (.ret (.ok ()))

def echoCode : DuplexCode Unit (List UInt8) Unit Bool where
  protobuf := echoProtobuf
  order := .big
  serviceID := 1
  emptyContext := ()
  peer _ := ⟨[], [], [], [], [⟨2, echoMethod⟩], []⟩

def echoCall : KnownCall echoCode .left Unit Unit where
  request := ⟨[7], 1, 2, (), some (), none⟩
  method := echoMethod
  known := rfl
  untimed := rfl
  serviceID := rfl
  request_class := trivial
  response_class := rfl

abbrev EchoDuplex : Type := Duplex (.sorted WaitResponseTimer.le) Unit Unit Unit (List UInt8) Bool

/-- Few calls and short messages. -/
def Duplex.small (d : EchoDuplex) : Bool :=
  [Side.left, .right].all fun side =>
    (d.peer side).client.mSequenceID ≤ 1 &&
      (d.peer side).session.sent.all fun m => m.1.length < 9 && m.2.length < 9

theorem Duplex.bounded_of_small {d : EchoDuplex} (h : d.small = true) :
    d.Bounded echoProtobuf.sizeLimit := by
  have hside : ∀ side, (d.peer side).client.mSequenceID ≤ 1 ∧
      ∀ m ∈ (d.peer side).session.sent, m.1.length < 9 ∧ m.2.length < 9 := by
    intro side
    simp only [small, List.all_eq_true, Bool.and_eq_true, decide_eq_true_eq] at h
    exact h side (by cases side <;> simp)
  constructor
  · intro side
    have := (hside side).1
    omega
  · intro side m hm
    have hlt : 9 ≤ echoProtobuf.sizeLimit := by decide
    have := (hside side).2 m hm
    omega

/-- The user at the right is ready to reply. -/
def Duplex.ready (d : EchoDuplex) : EchoDuplex :=
  d.update .right ((d.peer .right).setSession ((d.peer .right).session.setUser true))

theorem Duplex.drifts_ready (d : EchoDuplex) : d.Drifts d.ready := by
  intro side
  cases side with
  | left => exact ⟨(d.peer .left).clock, (d.peer .left).session.user, rfl⟩
  | right => exact ⟨(d.peer .right).clock, true, rfl⟩

def echoStart : EchoDuplex := .fresh 1 (fun _ => 0) fun _ => false

def echoReply : BaseReply := ⟨0, echoRequest, true⟩

set_option maxRecDepth 4000 in
/-- The call goes out, waits at the right for the user, and is answered. -/
theorem echo_run : ∃ b, Run (duplexWorld echoCode) ⟨echoStart, []⟩
    [.client .left (.request echoRequest [7]),
      .service .right (.called echoReply (.reply [7] ()) true),
      .service .right (.response (some echoReply) (replyMeta echoRequest) [7]),
      .client .left (.handle 0 0 [7] none)] b := by
  have h1 : Run (duplexWorld echoCode) ⟨echoStart, []⟩ []
      ⟨_, [_]⟩ := .single (.spawn [] (.request .left echoCall))
  have h2 := h1.tail (.act [] [] rfl (Duplex.bounded_of_small (by rfl)))
  have h3 := h2.tail (.act [] [] rfl (Duplex.bounded_of_small (by rfl)))
  have h4 := h3.tail (.emit [] [] _ (Duplex.bounded_of_small (by rfl)))
  have h5 := h4.tail (.act [] [] rfl (Duplex.bounded_of_small (by rfl)))
  -- all bytes of the request arrive at once
  have h6 := h5.tail (.spawn _ (.deliver .right 100))
  have h7 := h6.tail (.act [] _ (if_pos (by decide)) (Duplex.bounded_of_small (by rfl)))
  have h8 := h7.tail (.act [] _ rfl (Duplex.bounded_of_small (by rfl)))
  have h9 := h8.tail (.act [] _ rfl (Duplex.bounded_of_small (by rfl)))
  have h10 := h9.tail (.fork [] _ (Duplex.bounded_of_small (by rfl)))
  have h11 := h10.tail (.env _ (Duplex.drifts_ready _) (Duplex.bounded_of_small (by rfl)))
  have h12 := h11.tail (.act [] _ rfl (Duplex.bounded_of_small (by rfl)))
  have h13 := h12.tail (.act [] _ rfl (Duplex.bounded_of_small (by rfl)))
  have h14 := h13.tail (.emit [] _ _ (Duplex.bounded_of_small (by rfl)))
  have h15 := h14.tail (.emit [] _ _ (Duplex.bounded_of_small (by rfl)))
  have h16 := h15.tail (.act [] _ rfl (Duplex.bounded_of_small (by rfl)))
  -- and so do those of the response
  have h17 := h16.tail (.spawn _ (.deliver .left 100))
  have h18 := h17.tail (.act [] _ (if_pos (by decide)) (Duplex.bounded_of_small (by rfl)))
  have h19 := h18.tail (.act [] _ rfl (Duplex.bounded_of_small (by rfl)))
  have h20 := h19.tail (.act [] _ rfl (Duplex.bounded_of_small (by rfl)))
  have h21 := h20.tail (.emit [] _ _ (Duplex.bounded_of_small (by rfl)))
  exact ⟨_, h21⟩

theorem echo_corresponds : ∃ es b, Run (duplexWorld echoCode) ⟨echoStart, []⟩ es b ∧
    (∀ side q, (es.filter fun e => e.runs = some (side, q)).length ≤ 1) ∧
    ∃ (object : BaseReply) (m : List UInt8) (call : ReplyCall (List UInt8) Unit)
      (l₁ l₂ l₃ l₄ : List (DuplexEvent (List UInt8))),
      es = (l₁ ++ .client .left (.request object.mRequestMeta m) ::
        (l₂ ++ .service .right (.called object call true) ::
          (l₃ ++ .service .right (.response (some object) (call.rpcMeta object.mRequestMeta)
            (call.message echoProtobuf)) :: l₄))) ++ [.client .left (.handle 0 0 [7] none)] ∧
      object.mRequestMeta.requestInfo.sequenceId = 0 ∧
      ([7], none) = call.received echoProtobuf () := by
  obtain ⟨b, hrun⟩ := echo_run
  obtain ⟨honce, hall⟩ := request_response_correspondence echoCode echoProtobuf_roundTrips hrun
  obtain ⟨-, object, m, method, call, l₁, l₂, l₃, l₄, hes, hid, -, -, hreceived⟩ :=
    hall .left 0 0 [7] none [_, _, _] [] rfl
  exact ⟨_, b, hrun, honce, object, m, call, l₁, l₂, l₃, l₄, congrArg (· ++ [_]) hes, hid, hreceived⟩

end GayRpc
