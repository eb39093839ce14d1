import GayRpc.Client.Pending
import GayRpc.Duplex.Basic
import GayRpc.Lib.Ledger

/-!
# What is on record between two peers

The invariant of a connection, `Fits`: the calls of both clients, the stubs that wait, and the bytes on
their way in both directions, in the buffers of the receivers and on the wire, all go back to requests
and responses that have been shown. The programs of both peers lose none of the calls (`onRecord`).

    a stub in the map            a call of this client with this id, of the class of its method
    bytes on their way           messages that the writing side has announced
    a request that was shown     a call of the client of the same side
    a response that was shown    the first call on a reply object, made of a request of the other side
    a handle that was called     what was called on the reply object of its request

The first two are invariants of the state, the others say what may be shown at all (`May`). Since the ids of
a client go up and do not wrap around, a request is known by its id.

What is in the buffers is not a list of messages but bytes, with a frame that may have come only in part.
So an arrival is a lemma about bytes: the chunk is cut along the frames, and what is complete are messages
that were announced (`Fits.deliver`).
-/

namespace GayRpc

section record

variable {queue : PriorityQueue WaitResponseTimer WaitResponseTimer.le} {D H T Msg Ctx V : Type}

/-- The meta of a request that is the `q`-th call of its client. -/
def CallRequest.rpcMeta (q : ℕ) (r : CallRequest D H T Msg) : RpcMeta :=
  makeRequestRpcMeta (UInt64.ofNat q) r.serviceID r.msgID .binary r.handle.isSome

namespace ReplyCall

def rpcMeta (request : RpcMeta) : ReplyCall Msg Ctx → RpcMeta
  | reply _ _ => replyMeta request
  | error errorCode reason _ =>
    errorMeta request.serviceId request.requestInfo.sequenceId errorCode reason

def message (P : Protobuf D Msg) : ReplyCall Msg Ctx → Msg
  | reply response _ => response
  | error _ _ _ => P.emptyMeta

def context : ReplyCall Msg Ctx → Ctx
  | reply _ context => context
  | error _ _ context => context

/-- What the handle of the request is to receive, if its class of responses is `type`. -/
def received (P : Protobuf D Msg) (type : D) : ReplyCall Msg Ctx → Msg × Option RpcError
  | reply response _ => (response, none)
  | error errorCode reason _ => (P.default type, some (.ofCode errorCode reason))

variable (request : RpcMeta) (call : ReplyCall Msg Ctx)

@[simp] theorem rpcMeta_type : (call.rpcMeta request).type = .response := by
  cases call <;> rfl

@[simp] theorem rpcMeta_serviceId : (call.rpcMeta request).serviceId = request.serviceId := by
  cases call <;> rfl

@[simp] theorem rpcMeta_encoding : (call.rpcMeta request).encoding = .binary := by
  cases call <;> rfl

@[simp] theorem rpcMeta_sequenceId : (call.rpcMeta request).responseInfo.sequenceId =
    request.requestInfo.sequenceId := by
  cases call <;> rfl

@[simp] theorem rpcMeta_timeout : (call.rpcMeta request).responseInfo.timeout = false := by
  cases call <;> rfl

/-- The error that is made of the meta of the response. -/
theorem rpcMeta_error (P : Protobuf D Msg) (type : D) :
    (if (call.rpcMeta request).responseInfo.failed then
      some (RpcError.ofCode (call.rpcMeta request).responseInfo.errorCode
        (call.rpcMeta request).responseInfo.reason)
    else none) = (call.received P type).2 := by
  cases call <;> rfl

/-! What is sent and received for a call has nothing to do with its context. -/

@[simp] theorem bare_rpcMeta : call.bare.rpcMeta request = call.rpcMeta request := by
  cases call <;> rfl

@[simp] theorem bare_message (P : Protobuf D Msg) : call.bare.message P = call.message P := by
  cases call <;> rfl

/-- What is sent for a call tells which it was. -/
theorem ext_of_sent {P : Protobuf D Msg} {call call' : ReplyCall Msg Unit}
    (hmeta : call.rpcMeta request = call'.rpcMeta request) (hmessage : call.message P = call'.message P) :
    call = call' := by
  cases call with
  | reply response context =>
      cases call' with
      | reply response' context' => exact congrArg (reply · ()) hmessage
      | error errorCode reason context' => cases congrArg (·.responseInfo.failed) hmeta
  | error errorCode reason context =>
      cases call' with
      | reply response context' => cases congrArg (·.responseInfo.failed) hmeta
      | error errorCode' reason' context' =>
          obtain rfl : errorCode = errorCode' := congrArg (·.responseInfo.errorCode) hmeta
          obtain rfl : reason = reason' := congrArg (·.responseInfo.reason) hmeta
          rfl

theorem OfClass.bare {P : Protobuf D Msg} {type : D} (hcall : call.OfClass P type) :
    call.bare.OfClass P type := by
  cases call <;> exact hcall

end ReplyCall

/-- Both calls on a reply object answer in the same way. -/
theorem BaseReply.run_eq {U : Type} (outbound : UnaryServerInterceptor U Empty Msg Ctx)
    (P : Protobuf D Msg) (object : BaseReply) (call : ReplyCall Msg Ctx) :
    object.run outbound P.emptyMeta call =
      object.answer call.bare (sendResponse outbound (some object)
        (call.rpcMeta object.mRequestMeta) (call.message P) call.context) := by
  cases call <;> rfl

/-- The meta and the message are those of a call of the client. -/
def Duplex.Requested (d : Duplex queue D H T Msg V) (side : Side) (rpcMeta : RpcMeta) (m : Msg) :
    Prop :=
  ∃ (q : ℕ) (r : CallRequest D H T Msg), (d.peer side).calls[q]? = some r ∧ rpcMeta = r.rpcMeta q ∧
    m = r.request

/-- No call is taken off the record. -/
def Duplex.Le (d d' : Duplex queue D H T Msg V) : Prop :=
  ∀ side, (d.peer side).calls <+: (d'.peer side).calls

theorem Duplex.Le.call {d d' : Duplex queue D H T Msg V} (hle : d.Le d') {side : Side} {q : ℕ}
    {r : CallRequest D H T Msg} (h : (d.peer side).calls[q]? = some r) :
    (d'.peer side).calls[q]? = some r := by
  obtain ⟨later, hlater⟩ := hle side
  obtain ⟨hq, -⟩ := List.getElem?_eq_some_iff.mp h
  rw [← hlater, List.getElem?_append_left hq, h]

theorem Duplex.Requested.mono {d d' : Duplex queue D H T Msg V} {side : Side} {rpcMeta : RpcMeta}
    {m : Msg} (h : d.Requested side rpcMeta m) (hle : d.Le d') : d'.Requested side rpcMeta m := by
  obtain ⟨q, r, hr, hmeta⟩ := h
  exact ⟨q, r, hle.call hr, hmeta⟩

namespace DuplexCode

variable (code : DuplexCode D Msg Ctx V)

/-- The method that the service of one side has for a request, and a request of the other side that has
been shown. -/
structure Asked (h : List (DuplexEvent Msg)) (side : Side) (request : RpcMeta)
    (method : RpcMethod code.protobuf Ctx V) : Prop where
  shown : ∃ message, .client side.other (.request request message) ∈ h
  known : (code.peer side).serviceHandlerMapById.dlookup request.requestInfo.intMethod = some method

/-- What is called on a reply object is called by the method of a request that has been shown, with
objects of its response class. -/
def Called (h : List (DuplexEvent Msg)) (side : Side) (object : BaseReply)
    (call : ReplyCall Msg Unit) : Prop :=
  ∃ method, code.Asked h side object.mRequestMeta method ∧
    call.OfClass code.protobuf method.responseType

/-- The response is that of a call which has been shown, and which has found the flag of its object
clear. -/
def Answered (h : List (DuplexEvent Msg)) (side : Side) (origin : Option BaseReply) (rpcMeta : RpcMeta)
    (m : Msg) : Prop :=
  ∃ (object : BaseReply) (call : ReplyCall Msg Unit), origin = some object ∧
    .service side (.called object call true) ∈ h ∧ code.Called h side object call ∧
    rpcMeta = call.rpcMeta object.mRequestMeta ∧ m = call.message code.protobuf

/-- The first call on a reply object, and the response it has brought. -/
structure Gave (h : List (DuplexEvent Msg)) (side : Side) (object : BaseReply) (call : ReplyCall Msg Unit)
    (method : RpcMethod code.protobuf Ctx V) : Prop where
  asked : code.Asked h side object.mRequestMeta method
  of_class : call.OfClass code.protobuf method.responseType
  called : .service side (.called object call true) ∈ h
  sent : .service side (.response (some object) (call.rpcMeta object.mRequestMeta)
    (call.message code.protobuf)) ∈ h

/-- The side has shown that it sends the meta and the message. -/
def Announced (h : List (DuplexEvent Msg)) (side : Side) (rpcMeta : RpcMeta) (m : Msg) : Prop :=
  .client side (.request rpcMeta m) ∈ h ∨ ∃ origin, .service side (.response origin rpcMeta m) ∈ h

/-- The bytes are those of a message that the side has announced. -/
def Carries (h : List (DuplexEvent Msg)) (side : Side) (bytes : Message) : Prop :=
  ∃ (rpcMeta : RpcMeta) (m : Msg), Announced h side rpcMeta m ∧
    bytes.rpcMeta = code.protobuf.serializeMeta rpcMeta ∧
    bytes.data = code.protobuf.serializeAsString m ∧
    bytes.rpcMeta.length < code.protobuf.sizeLimit ∧ bytes.data.length < code.protobuf.sizeLimit

/-- Both handlers are registered, and the calls of the client and the stubs it holds fit each other. -/
structure Sound (side : Side) (p : Peer queue D H T Msg V) : Prop where
  manager : p.manager = Peer.installed code.serviceID
  count : p.calls.length = p.client.mSequenceID
  known : ∀ {q : ℕ} {r}, p.calls[q]? = some r → ∃ c : KnownCall code side H T, c.request = r
  consistent : p.client.Consistent
  stub : ∀ {q stub}, p.client.mStubHandleMap.lookup q = some stub →
    ∃ r, p.calls[q.toNat]? = some r ∧ stub.type = r.response

/-- The state of both peers fits what they have shown. -/
structure Fits (h : List (DuplexEvent Msg)) (d : Duplex queue D H T Msg V) : Prop where
  bounded : d.Bounded code.protobuf.sizeLimit
  sound : ∀ side, code.Sound side (d.peer side)
  /-- the bytes that the other side holds back, and those on their way to it, are messages -/
  wire : ∀ side, ∃ ms : List Message,
    (d.peer side.other).held ++ (d.peer side).session.outgoing =
      ms.flatMap (Message.bytes code.order) ∧ ∀ m ∈ ms, code.Carries h side m
  requested : ∀ {side rpcMeta m}, .client side (.request rpcMeta m) ∈ h →
    d.Requested side rpcMeta m
  answered : ∀ {side origin rpcMeta m}, .service side (.response origin rpcMeta m) ∈ h →
    code.Answered h side origin rpcMeta m

/-- A handle is given what was called on the reply object of the request, and a request or a response
is one of those that were called. No timeout callback runs. -/
def May (h : List (DuplexEvent Msg)) (d : Duplex queue D H T Msg V) : DuplexEvent Msg → Prop
  | .client side (.request rpcMeta m) => d.Requested side rpcMeta m
  | .client side (.handle received owner m error) =>
    received = owner ∧ ∃ (object : BaseReply) (method : RpcMethod code.protobuf Ctx V)
      (call : ReplyCall Msg Unit), object.mRequestMeta.requestInfo.sequenceId = owner ∧
      code.Gave h side.other object call method ∧
      (m, error) = call.received code.protobuf method.responseType
  | .client _ (.timeout _ _) => False
  | .service side (.called object call _) => code.Called h side object call
  | .service side (.response origin rpcMeta m) => code.Answered h side origin rpcMeta m

variable {code} {h h' : List (DuplexEvent Msg)} {d d' : Duplex queue D H T Msg V} {side : Side}
  {p : Peer queue D H T Msg V}

theorem Asked.mono {request : RpcMeta} {method : RpcMethod code.protobuf Ctx V}
    (ha : code.Asked h side request method) (hh : h ⊆ h') : code.Asked h' side request method := by
  obtain ⟨message, hmessage⟩ := ha.shown
  exact ⟨⟨message, hh hmessage⟩, ha.known⟩

theorem Called.mono {object : BaseReply} {call : ReplyCall Msg Unit}
    (hc : code.Called h side object call) (hh : h ⊆ h') : code.Called h' side object call := by
  obtain ⟨method, hasked, hcall⟩ := hc
  exact ⟨method, hasked.mono hh, hcall⟩

theorem Gave.mono {object : BaseReply} {call : ReplyCall Msg Unit}
    {method : RpcMethod code.protobuf Ctx V} (hg : code.Gave h side object call method) (hh : h ⊆ h') :
    code.Gave h' side object call method :=
  ⟨hg.asked.mono hh, hg.of_class, hh hg.called, hh hg.sent⟩

theorem Answered.mono {origin : Option BaseReply} {rpcMeta : RpcMeta} {m : Msg}
    (ha : code.Answered h side origin rpcMeta m) (hh : h ⊆ h') :
    code.Answered h' side origin rpcMeta m := by
  obtain ⟨object, call, horigin, hmem, hcalled, hrest⟩ := ha
  exact ⟨object, call, horigin, hh hmem, hcalled.mono hh, hrest⟩

/-- A response that was given and has been shown. -/
theorem Answered.gave {origin : Option BaseReply} {rpcMeta : RpcMeta} {m : Msg}
    (ha : code.Answered h side origin rpcMeta m)
    (hsent : .service side (.response origin rpcMeta m) ∈ h) :
    ∃ object call method, rpcMeta = ReplyCall.rpcMeta object.mRequestMeta call ∧
      m = call.message code.protobuf ∧ code.Gave h side object call method := by
  obtain ⟨object, call, rfl, hcalled, ⟨method, hasked, hclass⟩, rfl, rfl⟩ := ha
  exact ⟨object, call, method, rfl, rfl, hasked, hclass, hcalled, hsent⟩

theorem Announced.mono {rpcMeta : RpcMeta} {m : Msg} (ha : Announced h side rpcMeta m)
    (hh : h ⊆ h') : Announced h' side rpcMeta m := by
  rcases ha with hrequest | ⟨origin, hresponse⟩
  · exact .inl (hh hrequest)
  · exact .inr ⟨origin, hh hresponse⟩

theorem Carries.mono {bytes : Message} (hc : code.Carries h side bytes) (hh : h ⊆ h') :
    code.Carries h' side bytes := by
  obtain ⟨rpcMeta, m, hannounced, hbytes⟩ := hc
  exact ⟨rpcMeta, m, hannounced.mono hh, hbytes⟩

/-- What may be shown goes on record. -/
theorem Fits.append {e : DuplexEvent Msg} (hd : code.Fits h d) (he : code.May h d e) :
    code.Fits (h ++ [e]) d where
  bounded := hd.bounded
  sound := hd.sound
  wire side := by
    obtain ⟨ms, hbytes, hms⟩ := hd.wire side
    exact ⟨ms, hbytes, fun m hm => (hms m hm).mono (List.subset_append_left h [e])⟩
  requested hmem := by
    rcases List.mem_append.mp hmem with hmem | hmem
    · exact hd.requested hmem
    · obtain rfl := List.mem_singleton.mp hmem
      exact he
  answered hmem := by
    apply Answered.mono _ (List.subset_append_left h [e])
    rcases List.mem_append.mp hmem with hmem | hmem
    · exact hd.answered hmem
    · obtain rfl := List.mem_singleton.mp hmem
      exact he

/-- The ledger of a connection. -/
def onRecord (code : DuplexCode D Msg Ctx V) : Ledger (Duplex queue D H T Msg V) (DuplexEvent Msg) where
  bound := Duplex.Bounded code.protobuf.sizeLimit
  inv := code.Fits
  le := Duplex.Le
  may := code.May
  le_refl _ _ := List.prefix_rfl
  le_trans hle hle' side := (hle side).trans (hle' side)
  inv_append := Fits.append

/-! ## Changes -/

namespace Sound

/-- A call draws the next id. -/
theorem allocate (hp : code.Sound side p) (r : KnownCall code side H T) :
    code.Sound side { p with client := p.client.allocate, calls := p.calls ++ [r.request] } where
  manager := hp.manager
  count := by
    rw [List.length_append, hp.count]
    rfl
  known {q r'} hq := by
    rcases List.mem_append.mp (List.mem_of_getElem? hq) with hmem | hmem
    · obtain ⟨n, hn⟩ := List.mem_iff_getElem?.mp hmem
      exact hp.known hn
    · obtain rfl := List.mem_singleton.mp hmem
      exact ⟨r, rfl⟩
  consistent := hp.consistent.allocate
  stub hq := by
    obtain ⟨r', hr', htype⟩ := hp.stub hq
    obtain ⟨hlt, -⟩ := List.getElem?_eq_some_iff.mp hr'
    exact ⟨r', by rw [List.getElem?_append_left hlt, hr'], htype⟩

/-- The stub of a call waits. -/
theorem insertUntimed (hp : code.Sound side p) {n : ℕ} {r : CallRequest D H T Msg}
    (hr : p.calls[n]? = some r) (hn : n < 2 ^ 64) :
    code.Sound side { p with client := (p.client.insertUntimed (UInt64.ofNat n)
        { owner := UInt64.ofNat n, timed := false, type := r.response, handle := r.handle }) } where
  manager := hp.manager
  count := hp.count
  known := hp.known
  consistent := hp.consistent.insertUntimed (by rfl) (by rfl)
  stub hq := by
    obtain ⟨rfl, rfl⟩ | ⟨-, hq⟩ := Finmap.of_lookup_insert hq
    · rw [UInt64.toNat_ofNat_of_lt' hn]
      exact ⟨r, hr, rfl⟩
    · exact hp.stub hq

/-- A response takes a stub out. -/
theorem forget (hp : code.Sound side p) (q : UInt64) :
    code.Sound side { p with client := p.client.forget q } where
  manager := hp.manager
  count := hp.count
  known := hp.known
  consistent := hp.consistent.forget q
  stub hq := hp.stub (Finmap.of_lookup_erase hq).2

end Sound

/-- Something happens on the client of one side, and nothing to the bytes. -/
theorem Fits.of_client (hd : code.Fits h d) (hb : d'.Bounded code.protobuf.sizeLimit)
    (hother : ∀ x, x ≠ side → d'.peer x = d.peer x)
    (hheld : (d'.peer side).held = (d.peer side).held)
    (hsession : (d'.peer side).session = (d.peer side).session) (hle : d.Le d')
    (hsound : code.Sound side (d'.peer side)) : code.Fits h d' where
  bounded := hb
  sound x := by
    by_cases hx : x = side
    · exact hx ▸ hsound
    · rw [hother x hx]
      exact hd.sound x
  wire x := by
    have hheld' : (d'.peer x.other).held = (d.peer x.other).held := by
      by_cases hx : x.other = side
      · rw [hx, hheld]
      · rw [hother _ hx]
    have hsession' : (d'.peer x).session = (d.peer x).session := by
      by_cases hx : x = side
      · rw [hx, hsession]
      · rw [hother _ hx]
    rw [hheld', hsession']
    exact hd.wire x
  requested hmem := (hd.requested hmem).mono hle
  answered := hd.answered

/-- Something happens to the bytes, and nothing to the clients. -/
theorem Fits.of_bytes (hd : code.Fits h d) (hb : d'.Bounded code.protobuf.sizeLimit)
    (hmanager : ∀ x, (d'.peer x).manager = (d.peer x).manager)
    (hclient : ∀ x, (d'.peer x).client = (d.peer x).client)
    (hcalls : ∀ x, (d'.peer x).calls = (d.peer x).calls)
    (hwire : ∀ x, ∃ ms : List Message,
      (d'.peer x.other).held ++ (d'.peer x).session.outgoing =
        ms.flatMap (Message.bytes code.order) ∧ ∀ m ∈ ms, code.Carries h x m) :
    d.Le d' ∧ code.Fits h d' := by
  have hle : d.Le d' := fun x => hcalls x ▸ List.prefix_rfl
  refine ⟨hle, hb, fun x => ?_, hwire, fun hmem => (hd.requested hmem).mono hle, hd.answered⟩
  obtain ⟨hman, hcount, hknown, hcons, hstub⟩ := hd.sound x
  constructor
  · rw [hmanager, hman]
  · rw [hcalls, hclient, hcount]
  · rw [hcalls]
    exact hknown
  · rw [hclient]
    exact hcons
  · rw [hcalls, hclient]
    exact hstub

/-- Something happens to the session of one side. -/
theorem Fits.setSession (hd : code.Fits h d) {s : Session V}
    (hb : (d.update side ((d.peer side).setSession s)).Bounded code.protobuf.sizeLimit)
    (hwire : ∃ ms : List Message, (d.peer side.other).held ++ s.outgoing =
      ms.flatMap (Message.bytes code.order) ∧ ∀ m ∈ ms, code.Carries h side m) :
    d.Le (d.update side ((d.peer side).setSession s)) ∧
      code.Fits h (d.update side ((d.peer side).setSession s)) := by
  refine hd.of_bytes hb (fun x => Duplex.update_proj x (by rfl))
    (fun x => Duplex.update_proj x (by rfl)) (fun x => Duplex.update_proj x (by rfl)) fun x => ?_
  have hheld : ((d.update side ((d.peer side).setSession s)).peer x.other).held =
      (d.peer x.other).held := Duplex.update_proj (f := Peer.held) x.other (by rfl)
  rw [hheld]
  by_cases hx : x = side
  · subst hx
    rw [Duplex.update_peer]
    exact hwire
  · rw [Duplex.update_peer_of_ne _ _ _ _ hx]
    exact hd.wire x

/-- The user may do to his part of a session what he likes. -/
theorem harmless_user (f : V → Option V) :
    (onRecord code).Harmless fun d : Duplex queue D H T Msg V =>
      (f (d.peer side).session.user).map fun v =>
        d.update side ((d.peer side).setSession ((d.peer side).session.setUser v)) := by
  intro h d d' hd hf hb
  obtain ⟨v, -, rfl⟩ := Option.map_eq_some_iff.mp hf
  exact hd.setSession hb (hd.wire side)

/-- The flags and the promises of a service are not on record. -/
theorem Fits.setServer (hd : code.Fits h d) {s : Server (Session V)}
    (hs : s.user = (d.peer side).session)
    (hb : (d.update side { d.peer side with server := s }).Bounded code.protobuf.sizeLimit) :
    d.Le (d.update side { d.peer side with server := s }) ∧
      code.Fits h (d.update side { d.peer side with server := s }) := by
  refine hd.of_bytes hb (fun x => Duplex.update_proj x (by rfl))
    (fun x => Duplex.update_proj x (by rfl)) (fun x => Duplex.update_proj x (by rfl)) fun x => ?_
  have hheld : ((d.update side { d.peer side with server := s }).peer x.other).held =
      (d.peer x.other).held := Duplex.update_proj (f := Peer.held) x.other (by rfl)
  have hsession : ((d.update side { d.peer side with server := s }).peer x).session =
      (d.peer x).session := Duplex.update_proj (f := Peer.session) x hs
  rw [hheld, hsession]
  exact hd.wire x

/-- A message that was announced may be sent. -/
theorem Fits.send (hd : code.Fits h d) {rpcMeta : RpcMeta} {m : Msg}
    (ha : Announced h side rpcMeta m) {s : Session V}
    (hs : s = (d.peer side).session.send code.order (code.protobuf.serializeMeta rpcMeta)
      (code.protobuf.serializeAsString m))
    (hb : (d.update side ((d.peer side).setSession s)).Bounded code.protobuf.sizeLimit) :
    d.Le (d.update side ((d.peer side).setSession s)) ∧
      code.Fits h (d.update side ((d.peer side).setSession s)) := by
  have hsent : (code.protobuf.serializeMeta rpcMeta, code.protobuf.serializeAsString m) ∈
      ((d.update side ((d.peer side).setSession s)).peer side).session.sent := by
    rw [Duplex.update_peer]
    show _ ∈ s.sent
    rw [hs]
    exact List.mem_append_right _ (List.mem_singleton.mpr rfl)
  obtain ⟨hmeta, hdata⟩ := hb.sent side _ hsent
  have hlimit := code.protobuf.sizeLimit_le
  obtain ⟨ms, hbytes, hms⟩ := hd.wire side
  -- the bound on what is sent makes it one message of the line
  have hbody : 12 + (code.protobuf.serializeMeta rpcMeta).length +
      (code.protobuf.serializeAsString m).length < 2 ^ 64 := by
    dsimp only at hmeta hdata
    omega
  refine hd.setSession hb ⟨ms ++ [⟨_, _, hmeta.trans_le hlimit, hbody⟩], ?_, ?_⟩
  · rw [hs, List.flatMap_append, ← hbytes, List.append_assoc]
    simp [Session.send, Message.bytes]
  · intro x hx
    rcases List.mem_append.mp hx with hx | hx
    · exact hms x hx
    · obtain rfl := List.mem_singleton.mp hx
      exact ⟨rpcMeta, m, ha, rfl, rfl, hmeta, hdata⟩

/-! ## Arrivals -/

variable (code) in
/-- A message has come in at one side: the other side has announced it, and its bytes are those of the
message. -/
def Arrives (h : List (DuplexEvent Msg)) (side : Side) (rpcMeta : RpcMeta) (data : StringView) : Prop :=
  ∃ m, Announced h side.other rpcMeta m ∧ data.bytes = code.protobuf.serializeAsString m ∧
    (code.protobuf.serializeAsString m).length < code.protobuf.sizeLimit ∧
    toInt data.size = (code.protobuf.serializeAsString m).length

theorem Arrives.mono {rpcMeta : RpcMeta} {data : StringView}
    (ha : code.Arrives h side rpcMeta data) (hh : h ⊆ h') : code.Arrives h' side rpcMeta data := by
  obtain ⟨m, hannounced, hdata⟩ := ha
  exact ⟨m, hannounced.mono hh, hdata⟩

/-- One message of the stream is written down, as it was announced. -/
theorem opHandle_collect (hP : code.protobuf.RoundTrips) {bytes : Message}
    (hc : code.Carries h side.other bytes) (log : List (RpcMeta × StringView)) :
    ∃ rpcMeta data, code.Arrives h side rpcMeta data ∧
      opHandle code.order code.protobuf.parseMeta collect (bytes.packet code.order) log =
        (.ok true, log ++ [(rpcMeta, data)]) := by
  obtain ⟨rpcMeta, m, hannounced, hmeta, hdata, hmetalt, hlt⟩ := hc
  have hparse : code.protobuf.parseMeta bytes.rpcMeta bytes.rpcMeta.length = some rpcMeta := by
    rw [hmeta]
    exact hP.rpcMeta (hmeta ▸ hmetalt)
  have hsize := bytes.toNat_dataView_size code.order
  refine ⟨rpcMeta, ((bytes.packet code.order).protobufPacket code.order).dataView,
    ⟨m, hannounced, ?_, hdata ▸ hlt, ?_⟩, ?_⟩
  · rw [bytes.dataView_bytes, hdata]
  · rw [toInt_eq (hsize ▸ hlt.trans_le code.protobuf.sizeLimit_le), hsize, hdata]
  · rw [opHandle_message]
    simp only [hparse, collect]

/-- Induction on the messages: each adds itself to what is written down. -/
theorem runHandler_collect (hP : code.protobuf.RoundTrips) {ms : List Message}
    (hms : ∀ m ∈ ms, code.Carries h side.other m) {log : List (RpcMeta × StringView)}
    (hlog : ∀ x ∈ log, code.Arrives h side x.1 x.2) :
    ∀ x ∈ runHandler (opHandle code.order code.protobuf.parseMeta collect)
      (ms.map (Message.packet code.order)) log, code.Arrives h side x.1 x.2 := by
  induction ms generalizing log with
  | nil => exact hlog
  | cons bytes ms ih =>
      obtain ⟨hbytes, hms⟩ := List.forall_mem_cons.mp hms
      obtain ⟨rpcMeta, data, harrives, hstep⟩ := opHandle_collect hP hbytes log
      show ∀ x ∈ runHandler _ (ms.map (Message.packet code.order)) (opHandle _ _ _ _ log).2, _
      rw [hstep]
      apply ih hms
      intro x hx
      rcases List.mem_append.mp hx with hx | hx
      · exact hlog x hx
      · obtain rfl := List.mem_singleton.mp hx
        exact harrives

/-- The receiver after a delivery. -/
theorem delivered_peer (n : ℕ) : (code.delivered side n d).peer side =
    { d.peer side with held := (code.arrive side n d).1 } := by
  rw [delivered, Duplex.update_peer_of_ne _ _ _ _ side.ne_other, Duplex.update_peer]

/-- The sender after a delivery. -/
theorem delivered_peer_other (n : ℕ) : (code.delivered side n d).peer side.other =
    (d.peer side.other).setSession { (d.peer side.other).session with
      outgoing := (d.peer side.other).session.outgoing.drop n } := by
  rw [delivered, Duplex.update_peer]

/-- A chunk leaves messages behind on both sides of the cut, and those that are complete were
announced. -/
theorem Fits.deliver (hP : code.protobuf.RoundTrips) (hd : code.Fits h d) {n : ℕ}
    (hlen : ((d.peer side).held ++ chunk side n d).length < 2 ^ 64)
    (hb : (code.delivered side n d).Bounded code.protobuf.sizeLimit) :
    (d.Le (code.delivered side n d) ∧ code.Fits h (code.delivered side n d)) ∧
      ∀ x ∈ (code.arrive side n d).2, code.Arrives h side x.1 x.2 := by
  obtain ⟨ms, hbytes, hms⟩ := hd.wire side.other
  rw [Side.other_other, ← List.take_append_drop n (d.peer side.other).session.outgoing] at hbytes
  -- some of the messages on the wire are whole by now, the others stay behind
  obtain ⟨done, left, held', rfl, hleft, hreceive⟩ :=
    @receive_messages _ code.order code.protobuf.parseMeta collect _ _ _ _ hlen hbytes []
  have harrive : code.arrive side n d = (held', _) := congrArg Prod.snd hreceive
  have hdone : ∀ m ∈ done, code.Carries h side.other m := fun m hm =>
    hms m (List.mem_append_left left hm)
  constructor
  -- nothing but the bytes has changed, on either side
  · apply hd.of_bytes hb
    · intro x
      rcases Side.eq_or_eq_other x side with rfl | rfl
      · rw [delivered_peer]
      · rw [delivered_peer_other]
        rfl
    · intro x
      rcases Side.eq_or_eq_other x side with rfl | rfl
      · rw [delivered_peer]
      · rw [delivered_peer_other]
        rfl
    · intro x
      rcases Side.eq_or_eq_other x side with rfl | rfl
      · rw [delivered_peer]
      · rw [delivered_peer_other]
        rfl
    · intro x
      rcases Side.eq_or_eq_other x side with rfl | rfl
      · rw [delivered_peer, delivered_peer_other]
        exact hd.wire x
      · rw [Side.other_other, delivered_peer, delivered_peer_other, harrive]
        exact ⟨left, hleft, fun m hm => hms m (List.mem_append_right done hm)⟩
  · rw [harrive]
    exact runHandler_collect hP hdone (by simp)

end DuplexCode

end record

end GayRpc
