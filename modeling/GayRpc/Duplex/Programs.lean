import GayRpc.Duplex.Record

/-!
# The programs of two peers

Every program that runs on a connection keeps the record of it: a call and an answer announce what they
send, and a message that comes in finds what its announcement promises.

The programs are gone through in the order in which a call meets them: the outbound chain, the reply object,
the stub of the service, the call itself, the stub of the client, and the data callback that dispatches what
comes in. Each lemma says of a program that it honors the ledger of `Duplex/Record`. What such a program may
rely on is what has been shown by then, and nobody takes that back; so the other threads do not matter.

Interceptors of the user wrap the programs of the library in sections on the user's own part of the state,
which do no harm to the record (`outbound_wraps`, `serviceInbound_wraps`, `clientInbound_wraps`).
-/

namespace GayRpc

open Prog

section programs

variable {queue : PriorityQueue WaitResponseTimer WaitResponseTimer.le} {D H T Msg Ctx V : Type}
  {code : DuplexCode D Msg Ctx V} {h : List (DuplexEvent Msg)} {d : Duplex queue D H T Msg V}
  {side : Side}

/-! ## The chains -/

/-- The user's own sections on the session. -/
def OwnSection (f : Session V → Option (Session V)) : Prop :=
  ∃ g : V → Option V, f = fun s => (g s.user).map s.setUser

theorem onSession_passes (xs : List (UserInterceptor V Msg Ctx)) :
    ∀ y ∈ onSession xs, PassesThrough OwnSection y := by
  intro y hy args
  obtain ⟨x, -, rfl⟩ := List.mem_map.mp hy
  exact (x.property args).lift fun g _ => ⟨g, rfl⟩

/-- An outbound chain sends the message, and does nothing else to the session than the user does. -/
theorem outbound_wraps (xs : List (UserInterceptor V Msg Ctx)) (args : Args Msg Ctx) :
    Wraps OwnSection
      (act (fun s : Session V => some (s.send code.order (code.protobuf.serializeMeta args.rpcMeta)
          (code.protobuf.serializeAsString args.message))) fun _ =>
        ret { result := .ok (.ready (.value none)), rpcMeta := args.rpcMeta })
      ((code.outbound xs).call emptyHandler args : Prog _ Empty Empty Empty Reply) := by
  have hchain := Combination.foldr_wraps (onSession_passes xs)
    (.wrapper (Session.withSessionBinarySender code.protobuf code.order) .direct) args
  have hfold : code.outbound xs args = ((onSession xs).foldr Combination.wrapper
      (.wrapper (Session.withSessionBinarySender code.protobuf code.order) .direct)).run true args := by
    rw [DuplexCode.outbound, makeInterceptor, List.foldr_append]
    rfl
  rw [← hfold] at hchain
  exact hchain.answered (h := emptyHandler)

namespace Duplex

def setSession (side : Side) (d : Duplex queue D H T Msg V) (s : Session V) :
    Duplex queue D H T Msg V :=
  d.update side ((d.peer side).setSession s)

end Duplex

/-- A section of the user on his part of a session. -/
theorem harmless_session (g : V → Option V) :
    (DuplexCode.onRecord code).Harmless fun d : Duplex queue D H T Msg V =>
      ((g (d.peer side).session.user).map (d.peer side).session.setUser).map
        (Duplex.setSession side d) := by
  have hmap : (fun d : Duplex queue D H T Msg V =>
      ((g (d.peer side).session.user).map (d.peer side).session.setUser).map
        (Duplex.setSession side d)) = fun d => (g (d.peer side).session.user).map fun v =>
          d.update side ((d.peer side).setSession ((d.peer side).session.setUser v)) :=
    funext fun d => Option.map_map _ _ _
  exact hmap ▸ DuplexCode.harmless_user g

/-- On its way out through a chain a message keeps the record, once it has been announced. -/
theorem honors_outbound {G : Empty → Prop} (xs : List (UserInterceptor V Msg Ctx))
    {args : Args Msg Ctx} (ha : DuplexCode.Announced h side args.rpcMeta args.message) :
    Honors (DuplexCode.onRecord code) G (fun _ => True) h d
      (((code.outbound xs).call emptyHandler args).lift (fun d => (d.peer side).session)
        (Duplex.setSession side)) := by
  refine Honors.wraps (fun _ hf => hf) ?_
    ((outbound_wraps xs args).lift fun f hf => ?_)
  · intro h' d' hl hinv d'' hf hb
    obtain rfl := Option.some.inj hf
    obtain ⟨hle, hinv'⟩ := DuplexCode.Fits.send hinv (ha.mono hl.events.subset) rfl hb
    exact ⟨hle, hinv', trivial⟩
  · obtain ⟨g, rfl⟩ := hf
    exact harmless_session g

/-! ## Responses on their way out -/

/-- A call on a reply object may be carried out at any time after its request has been shown. -/
theorem honors_sendResponse {xs : List (UserInterceptor V Msg Ctx)} {origin : Option BaseReply}
    {rpcMeta : RpcMeta} {m : Msg} {context : Ctx} (ha : code.Answered h side origin rpcMeta m) :
    Honors (DuplexCode.onRecord code) (fun _ : Empty => True) (fun _ => True) h d
      (Duplex.onService side (sendResponse (code.outbound xs) origin rpcMeta m context)) := by
  intro h' d' hl _
  refine ⟨ha.mono hl.events.subset, ?_⟩
  show Honors _ _ _ _ _ (within _ _ _ (Prog.bind _ _))
  rw [within_bind, within_lift]
  apply Honors.bind (Φ := fun _ => True)
  · apply honors_outbound
    exact .inr ⟨origin, List.mem_append_right h' (List.mem_singleton.mpr rfl)⟩
  · intro _ _ _ _ _
    trivial

/-- What a method calls on its reply object goes on record, and so does the response, if there is one. -/
theorem honors_run {method : RpcMethod code.protobuf Ctx V} {object : BaseReply}
    (hasked : code.Asked h side object.mRequestMeta method) {call : ReplyCall Msg Ctx}
    (hcall : call.OfClass code.protobuf method.responseType) :
    Honors (DuplexCode.onRecord code) (fun _ : Empty => True) (fun _ => True) h d
      (Duplex.onService side (object.run (code.service side).outboundInterceptor
        (code.service side).noMessage call)) := by
  show Honors _ _ _ _ _ (Duplex.onService side (object.run _ code.protobuf.emptyMeta call))
  rw [BaseReply.run_eq]
  intro h' d' hl hinv d'' hf hb
  obtain rfl := Option.some.inj hf
  obtain ⟨hle, hinv'⟩ := DuplexCode.Fits.setServer hinv (by rfl) hb
  have hcalled : code.Called h' side object call.bare :=
    ⟨method, hasked.mono hl.events.subset, hcall.bare⟩
  refine ⟨hle, hinv', fun h₁ d₁ hl₁ _ => ⟨hcalled.mono hl₁.events.subset, ?_⟩⟩
  show Honors _ _ _ _ _ (Duplex.onService side (ite _ _ _))
  split
  · trivial
  · split
    · trivial
    · split
      · next hfree _ _ =>
          -- the flag was clear, so the call that has just been shown is the first
          apply honors_sendResponse
          refine ⟨object, call.bare, rfl, ?_, ?_, by simp, by simp⟩
          · rw [Bool.not_eq_true] at hfree
            rw [hfree]
            exact List.mem_append_right h₁ (List.mem_singleton.mpr rfl)
          · exact hcalled.mono fun e he => List.mem_append_left _ (hl₁.mem he)
      · trivial

/-! ## Requests that come in -/

/-- The user's own sections on the promises. -/
def OwnPromises (f : Promises (Session V) → Option (Promises (Session V))) : Prop :=
  ∃ g : V → Option V, f = fun p => (g p.sessionUser).map p.setSessionUser

theorem onPromises_passes (xs : List (UserInterceptor V Msg Ctx)) :
    ∀ y ∈ onPromises xs, PassesThrough OwnPromises y := by
  intro y hy args
  obtain ⟨x, -, rfl⟩ := List.mem_map.mp hy
  exact (x.property args).lift fun g _ => ⟨g, rfl⟩

/-- The inbound chain of a service passes a request on, and does nothing to the record. -/
theorem serviceInbound_wraps (args : Args Msg Ctx) :
    Wraps (DuplexCode.onRecord code).Harmless
      (ask args ret : Prog (Duplex queue D H T Msg V) (DuplexEvent Msg) _ _ _)
      (((code.service side).inboundInterceptor args).lift (fun d => (d.peer side).server.promises)
        fun d p => d.update side
          { d.peer side with server := (d.peer side).server.setPromises p }) := by
  refine (makeInterceptor_passes (onPromises_passes _) args).lift fun f hf => ?_
  obtain ⟨g, rfl⟩ := hf
  have hmap : (fun d : Duplex queue D H T Msg V =>
      ((g (d.peer side).session.user).map (d.peer side).server.promises.setSessionUser).map fun p =>
        d.update side { d.peer side with server := (d.peer side).server.setPromises p }) =
      fun d => (g (d.peer side).session.user).map fun v =>
        d.update side ((d.peer side).setSession ((d.peer side).session.setUser v)) :=
    funext fun d => Option.map_map _ _ _
  exact hmap ▸ DuplexCode.harmless_user g

/-- A method makes a reply object of the meta of the request, and whatever its threads call on it is an
answer to the request. The stub is left with no error to report. -/
theorem honors_methodHandler {method : RpcMethod code.protobuf Ctx V} {args : Args Msg Ctx}
    (hasked : code.Asked h side args.rpcMeta method) :
    Honors (DuplexCode.onRecord code) (fun _ : Empty => True)
      (fun reply : Reply => reply.result = .ok (.ready (.value none)) ∨ ∃ e, reply.result = .error e)
      h d (Duplex.onService side
        ((code.service side).methodHandler method.serviceMethod true args)) := by
  intro h' d' hl hinv d'' hf hb
  obtain rfl := Option.some.inj hf
  obtain ⟨hle, hinv'⟩ := DuplexCode.Fits.setServer hinv (by rfl) hb
  refine ⟨hle, hinv', ?_⟩
  show Honors _ _ _ _ _ (within _ _ _ (Prog.bind (Prog.plug _ _ _ (Prog.lift _ _ (Prog.plug _ _ _
    (Prog.lift _ _ (method.run args.message args.context))))) _))
  -- the parts of the stub run where the method runs: on the state of the side
  rw [lift_plug, lift_lift, within_bind, within_plug, within_plug, within_lift]
  apply Honors.bind (Φ := fun _ => True)
  · apply Honors.plug (G := fun call => call.OfClass code.protobuf method.responseType)
    · apply Honors.plug (Honors.lift (fun f => DuplexCode.harmless_user f) _)
      intro _ call _ _ _ _
      exact ⟨call.property, fun _ => trivial⟩
    · intro _ call h₁ d₁ hl₁ hcall
      exact honors_run (hasked.mono (hl.events.trans hl₁.events).subset) hcall
  · intro result _ _ _ _
    cases result with
    | ok _ => exact .inl rfl
    | error e => exact .inr ⟨e, rfl⟩

/-- The service of the other side finds the method of a known call. -/
theorem findHandler_known (r : KnownCall code side.other H T) (q : ℕ) :
    (code.service side).findHandler (r.request.rpcMeta q) = .ok r.method.serviceMethod := by
  have hlookup : (code.service side).serviceHandlerMapById.lookup r.request.msgID =
      some r.method.serviceMethod := by
    have hknown := r.known
    rw [Side.other_other] at hknown
    show Finmap.lookup _ (List.toFinmap _) = _
    rw [Finmap.dlookup_list_toFinmap, List.dlookup_map₂, hknown]
    rfl
  have hstr : ¬ (r.request.rpcMeta q).requestInfo.strMethod ≠ "" := fun h => h rfl
  rw [ServiceCode.findHandler, if_neg hstr,
    show (r.request.rpcMeta q).requestInfo.intMethod = r.request.msgID from rfl, hlookup]

/-- Bytes that were made of a message are parsed to it. -/
theorem parseMessage_binary (hP : code.protobuf.RoundTrips) (what : String) {type : D} {m : Msg}
    (hclass : code.protobuf.OfClass type m) {data : StringView}
    (hbytes : data.bytes = code.protobuf.serializeAsString m)
    (hlt : (code.protobuf.serializeAsString m).length < code.protobuf.sizeLimit)
    (hsize : toInt data.size = (code.protobuf.serializeAsString m).length) :
    parseMessage code.protobuf.toMessageCodec what type .binary data = .ok m := by
  simp only [parseMessage, hbytes, hsize, hP.message hclass hlt]

/-- A request that comes in becomes a reply object, and nothing else is answered to it. -/
theorem honors_requestStub (hP : code.protobuf.RoundTrips) (r : KnownCall code side.other H T)
    {q : ℕ} {data : StringView} {context : Ctx}
    (hrequest : .client side.other (.request (r.request.rpcMeta q) r.request.request) ∈ h)
    (hbytes : data.bytes = code.protobuf.serializeAsString r.request.request)
    (hlt : (code.protobuf.serializeAsString r.request.request).length < code.protobuf.sizeLimit)
    (hsize : toInt data.size = (code.protobuf.serializeAsString r.request.request).length) :
    Honors (DuplexCode.onRecord code) (fun _ : Empty => True) (fun _ => True) h d
      (Duplex.onService side
        ((code.service side).requestStub (r.request.rpcMeta q) data context)) := by
  have htype : ¬ (r.request.rpcMeta q).type ≠ .request := fun h => h rfl
  have hparse : parseMessage (code.service side).codec "request" r.method.requestType
      (r.request.rpcMeta q).encoding data = .ok r.request.request :=
    parseMessage_binary hP "request" r.request_class hbytes hlt hsize
  rw [ServiceCode.requestStub, if_neg htype, findHandler_known]
  show Honors _ _ _ _ _ (within _ _ _ (Prog.bind (ServiceCode.methodStub _ _ _ _ _) _))
  rw [within_bind]
  apply Honors.bind (Φ := fun reply => reply.result = .ok (.ready (.value none)) ∨
    ∃ e, reply.result = .error e)
  · rw [ServiceCode.methodStub, parseRequestWrapper,
      show r.method.serviceMethod.type = r.method.requestType from rfl, hparse]
    dsimp only
    rw [within_plug, within_lift]
    -- the inbound chain comes down to one call of the method
    refine Honors.wraps (fun _ hf => hf) ?_
      (serviceInbound_wraps _).plug
    have hmethod := r.known
    rw [Side.other_other] at hmethod
    exact honors_methodHandler ⟨⟨_, hrequest⟩, hmethod⟩
  · rintro ⟨result, rpcMeta⟩ _ _ _ (hresult | ⟨e, hresult⟩)
    · obtain rfl : result = _ := hresult
      trivial
    · obtain rfl : result = _ := hresult
      trivial

/-! ## Calls -/

/-- A call without a timeout. -/
theorem call_untimed {U : Type} (code : ClientCode D H T Msg Ctx U) {r : CallRequest D H T Msg}
    (hr : r.timed = none) : (call code r : ClientProg queue D H T Msg U) =
      .act (Host.onClient BaseClient.allocate) fun h =>
        if r.handle.isSome then
          .act (Host.onClient (BaseClient.insertUntimed h.client.nextID
            { owner := h.client.nextID, timed := false, type := r.response, handle := r.handle }))
              fun _ => sendRequest code (r.rpcMeta h.client.mSequenceID) r.request
        else sendRequest code (r.rpcMeta h.client.mSequenceID) r.request := by
  unfold call
  simp only [hr]
  rfl

/-- A section on a client. -/
theorem honors_section {Φ : Except Exn Unit → Prop} {f : BaseClient queue D H T → BaseClient queue D H T}
    {k : Host queue D H T (Session V) → ClientProg queue D H T Msg (Session V)}
    (hf : ∀ h' d', (DuplexCode.onRecord code).Later h d h' d' → code.Fits h' d' →
      code.Sound side { d'.peer side with client := f (d'.peer side).client } ∧
      Honors (DuplexCode.onRecord code) (fun _ => True) Φ h' d'
        (Duplex.onClient side (k (d'.peer side).host))) :
    Honors (DuplexCode.onRecord code) (fun _ => True) Φ h d
      (Duplex.onClient side (.act (Host.onClient f) k)) := by
  intro h' d' hl hinv d'' hd hb
  obtain rfl := Option.some.inj hd
  obtain ⟨hsound, hk⟩ := hf h' d' hl hinv
  have hle : d'.Le (d'.update side { d'.peer side with client := f (d'.peer side).client }) := by
    intro x
    rw [Duplex.update_proj (f := Peer.calls) x (by rfl)]
  refine ⟨hle, ?_, hk.later ⟨List.prefix_rfl, hle⟩⟩
  refine DuplexCode.Fits.of_client hinv hb (fun x hx => Duplex.update_peer_of_ne _ _ _ _ hx) ?_ ?_
    hle ?_
  · exact Duplex.update_proj (f := Peer.held) side (by rfl)
  · exact Duplex.update_proj (f := Peer.session) side (by rfl)
  · exact (Duplex.update_peer _ _ _).symm ▸ hsound

theorem honors_sendRequest {Φ : Except Exn Unit → Prop} (hΦ : ∀ r, Φ r) {rpcMeta : RpcMeta} {m : Msg}
    (hr : d.Requested side rpcMeta m) :
    Honors (DuplexCode.onRecord code) (fun _ : Empty => True) Φ h d
      (Duplex.onClient side (sendRequest (code.client side) rpcMeta m)) := by
  intro h' d' hl _
  refine ⟨hr.mono hl.state, ?_⟩
  show Honors _ _ _ _ _ (within _ _ _ (Prog.bind _ _))
  rw [within_bind, within_lift]
  apply Honors.bind (Φ := fun _ => True)
  · apply honors_outbound
    exact .inl (List.mem_append_right h' (List.mem_singleton.mpr rfl))
  · intro reply _ _ _ _
    exact hΦ reply.thrown

/-- A call goes on record together with the drawing of its id. -/
theorem honors_request (r : KnownCall code side H T) :
    Honors (DuplexCode.onRecord code) (fun _ : Empty => True) (fun _ => True) h d
      (code.request side r : DuplexProg queue D H T Msg V) := by
  rw [DuplexCode.request, call_untimed _ r.untimed]
  intro h' d' hl hinv d'' hd hb
  have hd' : d'' = d'.update side { d'.peer side with
      client := (d'.peer side).client.allocate
      calls := (d'.peer side).calls ++ [r.request] } := by
    obtain rfl := Option.some.inj hd
    show Duplex.note side r.request (d'.update side _) = _
    rw [Duplex.note, Duplex.update_peer, Duplex.update_update]
    rfl
  have hown : d''.peer side = { d'.peer side with
      client := (d'.peer side).client.allocate
      calls := (d'.peer side).calls ++ [r.request] } := by
    rw [hd', Duplex.update_peer]
  have hother : ∀ x, x ≠ side → d''.peer x = d'.peer x := by
    intro x hx
    rw [hd', Duplex.update_peer_of_ne _ _ _ _ hx]
  -- the record of this side has only grown, and the other's is as before
  have hle : d'.Le d'' := by
    intro x
    by_cases hx : x = side
    · subst hx
      rw [hown]
      exact List.prefix_append _ _
    · rw [hother x hx]
  refine ⟨hle, ?_, ?_⟩
  · refine DuplexCode.Fits.of_client hinv hb hother ?_ ?_ hle ?_
    · rw [hd']
      exact Duplex.update_proj (f := Peer.held) side (by rfl)
    · rw [hd']
      exact Duplex.update_proj (f := Peer.session) side (by rfl)
    · rw [hown]
      exact (hinv.sound side).allocate r
  · -- the id is the number of the calls before
    have hcall : (d''.peer side).calls[(d'.peer side).client.mSequenceID]? = some r.request := by
      rw [hown, ← (hinv.sound side).count]
      exact List.getElem?_concat_length
    have hlt : (d'.peer side).client.mSequenceID < 2 ^ 64 := hinv.bounded.calls side
    have hsend : ∀ {h₁ d₁}, (DuplexCode.onRecord code).Later h' d'' h₁ d₁ →
        Honors (DuplexCode.onRecord code) (fun _ : Empty => True) (fun _ => True) h₁ d₁
          (Duplex.onClient side (sendRequest (code.client side)
            (r.request.rpcMeta (d'.peer side).client.mSequenceID) r.request.request)) := by
      intro h₁ d₁ hl₁
      apply honors_sendRequest fun _ => trivial
      exact ⟨_, r.request, hl₁.state.call hcall, rfl, rfl⟩
    show Honors _ _ _ _ _ (Duplex.onClient side (ite _ _ _))
    split
    · apply honors_section
      intro h₁ d₁ hl₁ hinv₁
      exact ⟨(hinv₁.sound side).insertUntimed (hl₁.state.call hcall) hlt, hsend hl₁⟩
    · exact hsend .refl

/-! ## Responses that come in -/

/-- The inbound chain of a client passes a response on, and does nothing to the record. -/
theorem clientInbound_wraps (args : Args Msg Ctx) :
    Wraps (DuplexCode.onRecord code).Harmless
      (ask args ret : Prog (Duplex queue D H T Msg V) (DuplexEvent Msg) _ _ _)
      (((code.client side : ClientCode D H T Msg Ctx (Session V)).inbound args).lift
        (fun d => (d.peer side).session) (Duplex.setSession side)) := by
  refine (makeInterceptor_passes (onSession_passes _) args).lift fun f hf => ?_
  obtain ⟨g, rfl⟩ := hf
  exact harmless_session g

/-- What is received was made of the call on the reply object. -/
theorem parseMessage_response (hP : code.protobuf.RoundTrips) {request : RpcMeta}
    {call : ReplyCall Msg Unit} {type : D} (hclass : call.OfClass code.protobuf type)
    {data : StringView}
    (hbytes : data.bytes = code.protobuf.serializeAsString (call.message code.protobuf))
    (hlt : (code.protobuf.serializeAsString (call.message code.protobuf)).length < code.protobuf.sizeLimit)
    (hsize : toInt data.size =
      (code.protobuf.serializeAsString (call.message code.protobuf)).length) :
    parseMessage code.protobuf.toMessageCodec "response" type (call.rpcMeta request).encoding data =
      .ok (call.received code.protobuf type).1 := by
  rw [ReplyCall.rpcMeta_encoding]
  cases call with
  | reply response context => exact parseMessage_binary hP "response" hclass hbytes hlt hsize
  | error errorCode reason context =>
      have hnil : code.protobuf.serializeAsString code.protobuf.emptyMeta = [] :=
        hP.serialize_emptyMeta
      have hempty : data.bytes = [] := hbytes.trans hnil
      have hzero : toInt data.size = 0 := by
        rw [hsize, ReplyCall.message, hnil]
        rfl
      simp only [parseMessage, hempty, hzero, hP.parse_nil, ReplyCall.received]

/-- The handle of a call is given what its announcement says. -/
theorem honors_runStub (hP : code.protobuf.RoundTrips) {object : BaseReply}
    {call : ReplyCall Msg Unit} {method : RpcMethod code.protobuf Ctx V}
    (hgave : code.Gave h side.other object call method) {data : StringView}
    (hbytes : data.bytes = code.protobuf.serializeAsString (call.message code.protobuf))
    (hlt : (code.protobuf.serializeAsString (call.message code.protobuf)).length < code.protobuf.sizeLimit)
    (hsize : toInt data.size =
      (code.protobuf.serializeAsString (call.message code.protobuf)).length)
    {stub : ResponseStub D H} (howner : stub.owner = object.mRequestMeta.requestInfo.sequenceId)
    (htype : stub.type = method.responseType) {context : Ctx} :
    Honors (DuplexCode.onRecord code) (fun _ : Empty => True) (fun _ => True) h d
      (Duplex.onClient side (runStub (code.client side) object.mRequestMeta.requestInfo.sequenceId stub
        (call.rpcMeta object.mRequestMeta) data context) : DuplexProg queue D H T Msg V) := by
  rw [runStub, parseResponseWrapper, htype,
    show (code.client side : ClientCode D H T Msg Ctx (Session V)).codec =
      code.protobuf.toMessageCodec from rfl, parseMessage_response hP hgave.of_class hbytes hlt hsize]
  dsimp only
  show Honors _ _ _ _ _ (within _ _ _ (Prog.bind (Prog.plug _ _ _ (Prog.lift _ _ _)) _))
  rw [within_bind, within_plug, within_lift]
  apply Honors.bind (Φ := fun _ => True)
  · refine Honors.wraps (fun _ hf => hf) ?_ (clientInbound_wraps _).plug
    rw [ReplyCall.rpcMeta_error _ _ code.protobuf method.responseType]
    show Honors _ _ _ _ _ (within _ _ _ (Prog.bind (runHandle _ _ _ _ _) _))
    rw [within_bind]
    apply Honors.bind (Φ := fun _ => True)
    · rw [runHandle]
      cases stub.handle with
      | none => trivial
      | some handle =>
          intro h' d' hl _
          refine ⟨⟨howner.symm, object, method, call, howner.symm, hgave.mono hl.events.subset, ?_⟩, ?_⟩
          · -- copying the error loses nothing
            cases call <;> rfl
          · trivial
    · intro result _ _ _ _
      cases result <;> trivial
  · intro _ _ _ _ _
    trivial

/-- A response takes the stub of its own request out, whose class is that of the method. -/
theorem honors_processRpcResponse (hP : code.protobuf.RoundTrips) {object : BaseReply} {message : Msg}
    {call : ReplyCall Msg Unit} {method : RpcMethod code.protobuf Ctx V}
    (hrequest : d.Requested side object.mRequestMeta message)
    (hgave : code.Gave h side.other object call method) {data : StringView}
    (hbytes : data.bytes = code.protobuf.serializeAsString (call.message code.protobuf))
    (hlt : (code.protobuf.serializeAsString (call.message code.protobuf)).length < code.protobuf.sizeLimit)
    (hsize : toInt data.size =
      (code.protobuf.serializeAsString (call.message code.protobuf)).length) {context : Ctx} :
    Honors (DuplexCode.onRecord code) (fun _ : Empty => True) (fun _ => True) h d
      (Duplex.onClient side
        (processRpcResponse (code.client side) (call.rpcMeta object.mRequestMeta) data context)) := by
  rw [processRpcResponse_eq _ _ _ _ (call.rpcMeta_type object.mRequestMeta)]
  apply honors_section
  intro h' d' hl hinv
  refine ⟨(hinv.sound side).forget _, ?_⟩
  obtain ⟨hflag, -⟩ | ⟨-, stub, hstub, hp⟩ | ⟨r, hp, -⟩ :=
    afterSection_cases (code.client side) (call.rpcMeta object.mRequestMeta) data context
      (d'.peer side).host
  · rw [ReplyCall.rpcMeta_timeout] at hflag
    -- a reply object never tells a timeout
    cases hflag
  · rw [hp]
    rw [ReplyCall.rpcMeta_sequenceId] at hstub ⊢
    obtain ⟨q, r, hq, hmeta, -⟩ := hrequest.mono hl.state
    obtain ⟨c, rfl⟩ := (hinv.sound side).known hq
    have hlt' : q < 2 ^ 64 := by
      obtain ⟨hlen, -⟩ := List.getElem?_eq_some_iff.mp hq
      rw [(hinv.sound side).count] at hlen
      exact hlen.trans (hinv.bounded.calls side)
    have hid : object.mRequestMeta.requestInfo.sequenceId = UInt64.ofNat q := by
      rw [hmeta]
      rfl
    obtain ⟨r, hr, htype⟩ := (hinv.sound side).stub hstub
    -- the stub and the request are of one and the same call
    obtain rfl : c.request = r := by
      rw [hid, UInt64.toNat_ofNat_of_lt' hlt', hq] at hr
      exact Option.some.inj hr
    obtain rfl : method = c.method := by
      have hknown := hgave.asked.known
      rw [hmeta] at hknown
      exact Option.some.inj (hknown.symm.trans c.known)
    exact honors_runStub hP (hgave.mono hl.events.subset) hbytes hlt hsize
      ((hinv.sound side).consistent.stub_owner hstub) (htype.trans c.response_class)
  · rw [hp]
    trivial

/-! ## Chunks -/

/-- The table leads requests to the service and responses to the client. -/
theorem installed_handleRpcMsg (serviceID : UInt32) {rpcMeta : RpcMeta}
    (hid : rpcMeta.serviceId = serviceID) :
    (rpcMeta.type = .request →
      (Peer.installed serviceID).handleRpcMsg rpcMeta = .ok .service) ∧
    (rpcMeta.type = .response →
      (Peer.installed serviceID).handleRpcMsg rpcMeta = .ok .client) := by
  constructor
  · intro htype
    rw [RpcTypeHandleManager.handleRpcMsg_eq_ok_iff, htype, hid]
    simp [Peer.installed, RpcTypeHandleManager.find_registerTypeHandle]
  · intro htype
    rw [RpcTypeHandleManager.handleRpcMsg_eq_ok_iff, htype, hid]
    simp [Peer.installed, RpcTypeHandleManager.find_registerTypeHandle]

/-- A message that has come in is handled as it was meant by the other side. -/
theorem honors_handleRpcMsg (hP : code.protobuf.RoundTrips) {rpcMeta : RpcMeta} {data : StringView}
    (ha : code.Arrives h side rpcMeta data) :
    Honors (DuplexCode.onRecord code) (fun _ : Empty => True) (fun _ => True) h d
      (code.handleRpcMsg side rpcMeta data : DuplexProg queue D H T Msg V) := by
  intro h' d' hl hinv d'' hd _
  obtain rfl := Option.some.inj hd
  refine ⟨fun _ => List.prefix_rfl, hinv, ?_⟩
  obtain ⟨m, hannounced, hbytes, hlt, hsize⟩ := ha
  show Honors _ _ _ _ _
    (code.callHandler side rpcMeta data ((d'.peer side).manager.handleRpcMsg rpcMeta))
  rw [(DuplexCode.Fits.sound hinv side).manager]
  rcases hannounced with hrequest | ⟨origin, hresponse⟩
  · obtain ⟨q, r, hq, rfl, rfl⟩ := hinv.requested (hl.mem hrequest)
    obtain ⟨c, rfl⟩ := (hinv.sound side.other).known hq
    rw [(installed_handleRpcMsg code.serviceID c.serviceID).1 rfl]
    exact honors_requestStub hP c (hl.mem hrequest) hbytes hlt hsize
  · -- a response is one that some reply object gave, to a request that this side has shown
    obtain ⟨object, call, method, rfl, rfl, hgave⟩ :=
      (hinv.answered (hl.mem hresponse)).gave (hl.mem hresponse)
    obtain ⟨message, hrequest⟩ := hgave.asked.shown
    rw [Side.other_other] at hrequest
    obtain ⟨q, r, hq, hmeta, hm⟩ := hinv.requested hrequest
    obtain ⟨c, rfl⟩ := (hinv.sound side).known hq
    have hid : (call.rpcMeta object.mRequestMeta).serviceId = code.serviceID := by
      rw [ReplyCall.rpcMeta_serviceId, hmeta]
      exact c.serviceID
    rw [(installed_handleRpcMsg code.serviceID hid).2 (call.rpcMeta_type _)]
    exact honors_processRpcResponse hP ⟨q, c.request, hq, hmeta, hm⟩ hgave hbytes hlt hsize

/-- Induction on the messages of a chunk. -/
theorem honors_handleMessages (hP : code.protobuf.RoundTrips) {messages : List (RpcMeta × StringView)}
    (ha : ∀ x ∈ messages, code.Arrives h side x.1 x.2) :
    Honors (DuplexCode.onRecord code) (fun _ : Empty => True) (fun _ => True) h d
      (code.handleMessages side messages : DuplexProg queue D H T Msg V) := by
  induction messages generalizing h d with
  | nil => trivial
  | cons x messages ih =>
      obtain ⟨hx, hmessages⟩ := List.forall_mem_cons.mp ha
      apply (honors_handleRpcMsg hP hx).bind
      intro _ h' d' hl _
      apply ih
      intro y hy
      exact (hmessages y hy).mono hl.events.subset

theorem honors_deliver (hP : code.protobuf.RoundTrips) (n : ℕ) :
    Honors (DuplexCode.onRecord code) (fun _ : Empty => True) (fun _ => True) h d
      (code.deliver side n : DuplexProg queue D H T Msg V) := by
  intro h' d' hl hinv d'' hd hb
  obtain ⟨hlen, hd⟩ := Option.ite_none_right_eq_some.mp hd
  obtain rfl := Option.some.inj hd
  obtain ⟨⟨hle, hinv'⟩, harrives⟩ := DuplexCode.Fits.deliver hP hinv hlen hb
  exact ⟨hle, hinv', honors_handleMessages hP harrives⟩

end programs

end GayRpc
