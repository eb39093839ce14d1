import GayRpc.Duplex.Passage

/-!
# The programs that forward a call

Every program on a connection forwards every call, whatever it has to do with it: the one that makes the
call, the ones that handle its messages, and the ones that call its reply object.

The lemmas follow the way of a call. A message that is shown by whoever has the call in hand is put on the
wire by its outbound chain, and then nobody has the call in hand (`forwards_announce`). A request that comes
in makes a reply object, and whoever of the method's threads calls that object first takes the call in hand
(`forwards_run`). A response that comes in takes the stub out of the map, and then its handle is called
(`forwards_processRpcResponse`).

For all other calls each of these programs must be shown to be harmless. That is the same lemma with nothing
in hand, so a lemma mostly has both cases, and the first thing that it does is to tell whether a message
concerns the call.
-/

namespace GayRpc

open Prog

section forwarding

variable {queue : PriorityQueue WaitResponseTimer WaitResponseTimer.le} {D H T Msg Ctx V : Type}
  {code : DuplexCode D Msg Ctx V} {side x : Side} {q : UInt64} {b : Bool}
  {t : Moment (Duplex queue D H T Msg V) (DuplexEvent Msg) Place}

/-! ## Messages on their way out -/

theorem way_harmless_session (g : V → Option V) :
    (code.way side q).Harmless fun d : Duplex queue D H T Msg V =>
      ((g (d.peer x).session.user).map (d.peer x).session.setUser).map (Duplex.setSession x d) := by
  have hmap : (fun d : Duplex queue D H T Msg V =>
      ((g (d.peer x).session.user).map (d.peer x).session.setUser).map (Duplex.setSession x d)) =
        fun d => (g (d.peer x).session.user).map fun v =>
          d.update x ((d.peer x).setSession ((d.peer x).session.setUser v)) :=
    funext fun d => Option.map_map _ _ _
  exact hmap ▸ DuplexCode.way_harmless_user g

/-- An outbound chain puts the message on the wire. -/
theorem forwards_outbound (hP : code.protobuf.RoundTrips) (xs : List (UserInterceptor V Msg Ctx))
    {args : Args Msg Ctx} (ha : DuplexCode.Announced t.events x args.rpcMeta args.message)
    (hb : Concerns side q x args.rpcMeta = b)
    (hplace : b = true → t.place.stage = CallStage.shown (x = side)) :
    Forwards (code.way side q) b t
      (((code.outbound xs).call emptyHandler args).lift (fun d => (d.peer x).session)
        (Duplex.setSession x)) := by
  refine Forwards.wraps (fun _ hf => hf) (fun t' hl => ?_)
    ((outbound_wraps xs args).lift fun f hf => ?_)
  · intro u hu ht d hd hbound _ _
    obtain rfl := Option.some.inj hd
    have ha' := ha.mono (hl.trans hu).record.events.subset
    have hreplies : ∀ s, ((Duplex.setSession x u.state s).peer side.other).server.replies =
        (u.state.peer side.other).server.replies :=
      fun s => Duplex.update_proj (f := fun p => p.server.replies) side.other (by rfl)
    cases b with
    | true =>
        -- at the end of its chain the message of the call goes onto the wire
        have hstage : u.place.stage = CallStage.shown (x = side) := by
          rw [(hl.trans hu).place rfl, hplace rfl]
        have hfits := DuplexCode.OnItsWay.send hP ht.fits ha' rfl hbound hb hstage
        have hown : ∀ own, (6 ≤ (CallStage.shown own).rank ↔ 6 ≤ (CallStage.wire own).rank) ∧
            false = (CallStage.wire own).inHands := by decide
        refine ⟨_, false, .move (.restage (hreplies _).ge ?_) hfits (.inl rfl) (hown _).2, rfl⟩
        rw [hstage]
        exact (hown _).1
    | false =>
        obtain ⟨hle, hfits⟩ := DuplexCode.OnItsWay.send_other hP ht.fits ha' rfl hbound hb
        exact ⟨u.place, false, .stay hle rfl hfits ht, rfl⟩
  · obtain ⟨g, rfl⟩ := hf
    exact way_harmless_session g

/-- A message is shown. -/
theorem forwards_announce {Q A R : Type} {e : DuplexEvent Msg}
    {k : Prog (Duplex queue D H T Msg V) (DuplexEvent Msg) Q A R}
    (he : ∀ y, e.announces side q y = (decide (x = y) && b)) (hruns : e.runs ≠ some (side, q))
    (hplace : b = true → t.place.stage = CallStage.ready (x = side))
    (hk : ∀ t', code.onRecord.Later t.events t.state t'.events t'.state → e ∈ t'.events →
      (b = true → t'.place.stage = CallStage.shown (x = side)) → Forwards (code.way side q) b t' k) :
    Forwards (code.way side q) b t (emit e k) := by
  cases b with
  | true =>
      intro u hu ht _ _
      have hlater : code.onRecord.Later u.events u.state (u.events ++ [e]) u.state :=
        ⟨List.prefix_append _ _, code.onRecord.le_refl _⟩
      -- this is the message of the call, which is shown before it goes down its chain
      have hstage : u.place.stage = CallStage.ready (x = side) := by rw [hu.place rfl, hplace rfl]
      have hfits := DuplexCode.OnItsWay.announce ht.fits hstage (by simpa using he x)
      have hown : ∀ own, (6 ≤ (CallStage.ready own).rank ↔ 6 ≤ (CallStage.shown own).rank) ∧
          true = (CallStage.shown own).inHands := by decide
      refine ⟨_, true, .move (.restage (Nat.le_refl _) ?_) hfits (.inl rfl) (hown _).2,
        hk _ (hu.record.trans hlater) ?_ fun _ => rfl⟩
      · rw [hstage]
        exact (hown _).1
      · exact List.mem_append_right _ (List.mem_singleton.mpr rfl)
  | false =>
      apply Forwards.emit_idle (DuplexCode.way_idle (fun y => by simpa using he y) hruns)
      intro t' hl hmem
      exact hk t' hl.record hmem (by simp)

theorem announces_request (rpcMeta : RpcMeta) (m : Msg) (y : Side) :
    (DuplexEvent.client x (.request rpcMeta m)).announces side q y =
      (decide (x = y) && Concerns side q x rpcMeta) := by
  by_cases hy : x = y
  · rw [hy]
    rfl
  · simp [DuplexEvent.announces, hy]

theorem announces_response (origin : Option BaseReply) (rpcMeta : RpcMeta) (m : Msg) (y : Side) :
    (DuplexEvent.service x (.response origin rpcMeta m)).announces side q y =
      (decide (x = y) && Concerns side q x rpcMeta) := by
  by_cases hy : x = y
  · rw [hy]
    rfl
  · simp [DuplexEvent.announces, hy]

theorem forwards_sendResponse (hP : code.protobuf.RoundTrips) {xs : List (UserInterceptor V Msg Ctx)}
    {origin : Option BaseReply} {rpcMeta : RpcMeta} {m : Msg} {context : Ctx}
    (hb : Concerns side q x rpcMeta = b)
    (hplace : b = true → t.place.stage = CallStage.ready (x = side)) :
    Forwards (code.way side q) b t
      (Duplex.onService x (sendResponse (code.outbound xs) origin rpcMeta m context)) := by
  apply forwards_announce (x := x)
  · intro y
    rw [← hb]
    exact announces_response origin rpcMeta m y
  · simp [DuplexEvent.runs]
  · exact hplace
  · intro t' _ hmem hshown
    show Forwards _ _ _ (within _ _ _ (Prog.bind _ _))
    rw [within_bind, within_lift]
    refine (forwards_outbound hP xs (.inr ⟨origin, hmem⟩) hb hshown).bind fun _ _ _ => rfl

theorem forwards_sendRequest (hP : code.protobuf.RoundTrips) {rpcMeta : RpcMeta} {m : Msg}
    (hb : Concerns side q x rpcMeta = b)
    (hplace : b = true → t.place.stage = CallStage.ready (x = side)) :
    Forwards (code.way side q) b t
      (Duplex.onClient x (sendRequest (code.client x) rpcMeta m) : DuplexProg queue D H T Msg V) := by
  apply forwards_announce (x := x)
  · intro y
    rw [← hb]
    exact announces_request rpcMeta m y
  · simp [DuplexEvent.runs, ClientEvent.runs]
  · exact hplace
  · intro t' _ hmem hshown
    show Forwards _ _ _ (within _ _ _ (Prog.bind _ _))
    rw [within_bind, within_lift]
    refine (forwards_outbound hP _ (.inl hmem) hb hshown).bind fun _ _ _ => rfl

/-! ## Reply objects -/

/-- The reply object is there, and it is the one of the call if it was made of its request. -/
structure Made (side : Side) (q : UInt64) (object : BaseReply)
    (t : Moment (Duplex queue D H T Msg V) (DuplexEvent Msg) Place) : Prop where
  number : object.number < (t.state.peer side.other).server.replies
  own : Concerns side q side object.mRequestMeta = true →
    6 ≤ t.place.stage.rank ∧ t.place.object = object.number
  other : Concerns side q side object.mRequestMeta = false → 6 ≤ t.place.stage.rank →
    t.place.object ≠ object.number

theorem Made.later {object : BaseReply} {t' : Moment (Duplex queue D H T Msg V) (DuplexEvent Msg) Place}
    (hm : Made side q object t) (hl : (code.way side q).Later b t t') : Made side q object t' := by
  have hle : Advances side t.state t.place t'.state t'.place := hl.le
  refine ⟨hm.number.trans_le hle.replies, fun hown => ?_, fun hother hrank' => ?_⟩
  · obtain ⟨hrank, hobject⟩ := hm.own hown
    obtain ⟨hrank', hsame⟩ := hle.kept hrank
    exact ⟨hrank', hsame.trans hobject⟩
  · by_cases hrank : 6 ≤ t.place.stage.rank
    · rw [(hle.kept hrank).2]
      exact hm.other hother hrank
    · -- the object of the call was made after this one
      have hfresh := hle.fresh (Nat.lt_of_not_le hrank) hrank'
      have hnumber := hm.number
      omega

/-- A response that is given to another request, or by the client's own side, is none to the call. -/
theorem concerns_response {C : Type} {request : RpcMeta} (call : ReplyCall Msg C) :
    Concerns side q x (call.rpcMeta request) = true ↔
      x = side.other ∧ request.requestInfo.sequenceId = q := by
  rcases Side.eq_or_eq_other x side with rfl | rfl
  · simp [Concerns]
  · simp [Concerns]

theorem concerns_request {request : RpcMeta} (htype : request.type = .request) :
    Concerns side q side request = true ↔
      request.requestInfo.sequenceId = q ∧ request.requestInfo.expectResponse = true := by
  simp [Concerns, htype]

/-- That a reply object is called tells nothing about the call. -/
theorem forwards_called {object : BaseReply} {call : ReplyCall Msg Unit} {first : Bool}
    {p : ServerProg (Session V) Msg (Except Exn Unit)}
    (hp : ∀ t', (code.way side q).Later b t t' →
      Forwards (code.way side q) b t' (Duplex.onService x p)) :
    Forwards (code.way side q) b t
      (Duplex.onService x (.emit (.called object call first) p)) := by
  apply Forwards.emit_idle (DuplexCode.way_idle (fun _ => rfl) (by simp [DuplexEvent.runs]))
  intro t' hl _
  exact hp t' hl

/-- What comes after the flag has been set, when the call is not waiting for this answer. -/
theorem forwards_send (hP : code.protobuf.RoundTrips) {xs : List (UserInterceptor V Msg Ctx)}
    {object : BaseReply} {call : ReplyCall Msg Ctx} {s : Server (Session V)}
    (hother : s.mReplyFlag object.number = true ∨ x = side ∨
      object.mRequestMeta.requestInfo.expectResponse = false ∨
      object.mRequestMeta.requestInfo.sequenceId ≠ q) :
    Forwards (code.way side q) false t
      (Duplex.onService x
        (if s.mReplyFlag object.number then .ret (.error (.runtimeError "already reply"))
        else if !object.mRequestMeta.requestInfo.expectResponse then .ret (.ok ())
        else if object.hasOutboundInterceptor then
          sendResponse (code.outbound xs) (some object)
            (call.rpcMeta object.mRequestMeta) (call.message code.protobuf) call.context
        else .ret (.error .badFunctionCall))) := by
  split
  · rfl
  · next hflag =>
    split
    · rfl
    · next hexpect =>
      split
      · apply forwards_sendResponse hP _ (by simp)
        rw [← Bool.not_eq_true, concerns_response]
        rintro ⟨rfl, hid⟩
        obtain hset | hx | hnone | hne := hother
        · exact hflag hset
        · exact side.other_ne hx
        · exact hexpect (by simp [hnone])
        · exact hne hid
      · rfl

/-- Whoever calls a reply object takes the call in hand if it is the one that is asked for. -/
theorem forwards_run (hP : code.protobuf.RoundTrips) {object : BaseReply} {call : ReplyCall Msg Ctx}
    (htype : object.mRequestMeta.type = .request) (hout : object.hasOutboundInterceptor = true)
    (hm : x = side.other → Made side q object t) :
    Forwards (code.way side q) false t
      (Duplex.onService x (object.run (code.service x).outboundInterceptor
        (code.service x).noMessage call)) := by
  show Forwards _ _ _ (Duplex.onService x (object.run _ code.protobuf.emptyMeta call))
  rw [BaseReply.run_eq]
  intro u hu ht d hd _ _ _
  obtain rfl := Option.some.inj hd
  rcases Side.eq_or_eq_other x side with rfl | rfl
  · obtain ⟨hle, hfits⟩ := DuplexCode.OnItsWay.congr ht.fits (x := x)
      (p := { u.state.peer x with server := (u.state.peer x).server.setFlag object.number })
      (fun _ => rfl) (fun _ => rfl) rfl rfl (fun hx => absurd hx x.ne_other)
      fun hx => absurd hx x.ne_other
    refine ⟨u.place, false, .stay hle rfl hfits ht, forwards_called fun _ _ => ?_⟩
    exact forwards_send hP (.inr (.inl rfl))
  · have hm' := (hm rfl).later hu
    have hfits : code.OnItsWay side q u.place u.events u.state := ht.fits
    -- the object has been made, so its flag says nothing of those still to come
    have hunmade : ∀ n, (u.state.peer side.other).server.replies ≤ n →
        ((u.state.peer side.other).server.setFlag object.number).mReplyFlag n = false := by
      intro n hn
      have hne : n ≠ object.number := (hm'.number.trans_le hn).ne'
      simpa [Server.setFlag, hne] using hfits.unmade n hn
    by_cases hopen : Concerns side q side object.mRequestMeta = true ∧ u.place.stage = .opened
    · -- the flag of the call's reply object was not set
      obtain ⟨hown, hstage⟩ := hopen
      obtain ⟨hid, hexpect⟩ := (concerns_request htype).mp hown
      obtain ⟨hrank, hobject⟩ := hm'.own hown
      have hflag := (hfits.object hrank).2
      rw [hstage, hobject] at hflag
      have hserve := hfits.serve .answering u.place.object
        (s := (u.state.peer side.other).server.setFlag object.number) (.inr ⟨hstage, rfl⟩) rfl
        ⟨(hfits.object hrank).1, by simp [Server.setFlag, hobject, CallStage.rank]⟩ hunmade
      refine ⟨_, true, .move (.restage ?_ ?_) hserve (.inr ?_) (by rfl), ?_⟩
      · rw [Duplex.update_peer]
        exact Nat.le_refl _
      · rw [hstage]
        decide
      · show u.place.stage.inHands = false
        rw [hstage]
        rfl
      · have hset : ¬ (u.state.peer side.other).server.mReplyFlag object.number = true := by
          rw [hflag]
          decide
        have hanswer : ¬ (!object.mRequestMeta.requestInfo.expectResponse) = true := by simp [hexpect]
        refine forwards_called fun t' hl => ?_
        rw [if_neg hset, if_neg hanswer, if_pos hout]
        apply forwards_sendResponse hP ((concerns_response call).mpr ⟨rfl, hid⟩)
        intro _
        rw [hl.place rfl]
        simp [CallStage.ready]
    · have hrest : (6 ≤ u.place.stage.rank → ((u.state.peer side.other).server.setFlag
            object.number).mReplyFlag u.place.object =
              (u.state.peer side.other).server.mReplyFlag u.place.object) ∧
          ((u.state.peer side.other).server.mReplyFlag object.number = true ∨
            side.other = side ∨ object.mRequestMeta.requestInfo.expectResponse = false ∨
            object.mRequestMeta.requestInfo.sequenceId ≠ q) := by
        cases hconcerns : Concerns side q side object.mRequestMeta with
        | true =>
            -- somebody has called the reply object before
            obtain ⟨hrank, hobject⟩ := hm'.own hconcerns
            have hseven : 7 ≤ u.place.stage.rank := by
              have hne : u.place.stage ≠ .opened := fun h => hopen ⟨hconcerns, h⟩
              revert hne hrank
              generalize u.place.stage = s
              cases s <;> decide
            have hflag := (hfits.object hrank).2
            rw [decide_eq_true hseven, hobject] at hflag
            refine ⟨fun _ => ?_, .inl hflag⟩
            simp [Server.setFlag, hobject, hflag]
        | false =>
            refine ⟨fun hrank => ?_, .inr (.inr ?_)⟩
            · have hne := hm'.other hconcerns hrank
              simp [Server.setFlag, hne]
            · by_cases hexpect : object.mRequestMeta.requestInfo.expectResponse = true
              · refine .inr fun hid => ?_
                rw [(concerns_request htype).mpr ⟨hid, hexpect⟩] at hconcerns
                cases hconcerns
              · exact .inl (by simpa using hexpect)
      obtain ⟨hle, hstays⟩ := hfits.serve_other
        (s := (u.state.peer side.other).server.setFlag object.number) rfl (Nat.le_refl _) hrest.1
        hunmade
      refine ⟨u.place, false, .stay hle rfl hstays ht, forwards_called fun _ _ => ?_⟩
      exact forwards_send hP hrest.2

/-! ## Requests that come in -/

theorem serviceInbound_wraps_way (args : Args Msg Ctx) :
    Wraps (code.way side q).Harmless
      (ask args ret : Prog (Duplex queue D H T Msg V) (DuplexEvent Msg) _ _ _)
      (((code.service x).inboundInterceptor args).lift (fun d => (d.peer x).server.promises)
        fun d p => d.update x { d.peer x with server := (d.peer x).server.setPromises p }) := by
  refine (makeInterceptor_passes (onPromises_passes _) args).lift fun f hf => ?_
  obtain ⟨g, rfl⟩ := hf
  have hmap : (fun d : Duplex queue D H T Msg V =>
      ((g (d.peer x).session.user).map (d.peer x).server.promises.setSessionUser).map fun p =>
        d.update x { d.peer x with server := (d.peer x).server.setPromises p }) =
      fun d => (g (d.peer x).session.user).map fun v =>
        d.update x ((d.peer x).setSession ((d.peer x).session.setUser v)) :=
    funext fun d => Option.map_map _ _ _
  exact hmap ▸ DuplexCode.way_harmless_user g

/-- All that the threads of a method do is to call the reply object. -/
theorem forwards_method (hP : code.protobuf.RoundTrips) (method : RpcMethod code.protobuf Ctx V)
    {object : BaseReply} (htype : object.mRequestMeta.type = .request)
    (hout : object.hasOutboundInterceptor = true) (hm : x = side.other → Made side q object t)
    {message : Msg} {context : Ctx} {k : Except Exn Unit → ServerProg (Session V) Msg Reply}
    (hk : ∀ r, ∃ reply, k r = .ret reply) :
    Forwards (code.way side q) false t (Duplex.onService x
      ((((method.serviceMethod.run message context).lift Server.promises Server.setPromises).plug
        (fun _ call => object.run (code.service x).outboundInterceptor (code.service x).noMessage call)
        id ()).bind k)) := by
  show Forwards _ _ _ (within _ _ _ (Prog.bind (Prog.plug _ _ _ (Prog.lift _ _ (Prog.plug _ _ _
    (Prog.lift _ _ (method.run message context))))) _))
  rw [lift_plug, lift_lift, within_bind, within_plug, within_plug, within_lift]
  show Forwards _ _ _
    (Prog.bind (Prog.plug _ _ _ (Prog.plug (fun _ call => ask (Subtype.val call) ret) id () _)) _)
  rw [plug_relay]
  apply Forwards.bind
  · apply Forwards.lift_plug fun f => DuplexCode.way_harmless_user f
    intro _ call t' hl
    exact forwards_run hP htype hout fun hx => (hm hx).later hl
  · intro r _ _
    obtain ⟨reply, hreply⟩ := hk r
    rw [hreply]
    rfl

/-- A method gets a reply object, and with it the call if the request is the one of the call. -/
theorem forwards_methodHandler (hP : code.protobuf.RoundTrips) {method : RpcMethod code.protobuf Ctx V}
    {args : Args Msg Ctx} (htype : args.rpcMeta.type = .request)
    (hb : Concerns side q x.other args.rpcMeta = b) (hplace : b = true → t.place.stage = .arrived) :
    Forwards (code.way side q) b t
      (Duplex.onService x ((code.service x).methodHandler method.serviceMethod true args)) := by
  intro u hu ht d hd _ hle hinv
  obtain rfl := Option.some.inj hd
  have hfits : code.OnItsWay side q u.place u.events u.state := ht.fits
  rcases Side.eq_or_eq_other x side with rfl | rfl
  · -- requests to the side itself are not those of the call
    have hfalse : Concerns x q x.other args.rpcMeta = false := by simp [Concerns, htype]
    obtain rfl : b = false := hb.symm.trans hfalse
    obtain ⟨hle', hstays⟩ := hfits.congr (x := x) (p := { u.state.peer x with
        server := { (u.state.peer x).server with replies := (u.state.peer x).server.replies + 1 } })
      (fun _ => rfl) (fun _ => rfl) rfl rfl (fun hx => absurd hx x.ne_other)
      fun hx => absurd hx x.ne_other
    refine ⟨u.place, false, .stay hle' rfl hstays ht, ?_⟩
    apply forwards_method hP method htype rfl fun hx => absurd hx x.ne_other
    intro r
    cases r with
    | ok _ => exact ⟨_, rfl⟩
    | error _ => exact ⟨_, rfl⟩
  · rw [Side.other_other] at hb
    have hunmade : ∀ n, (u.state.peer side.other).server.replies + 1 ≤ n →
        (u.state.peer side.other).server.mReplyFlag n = false :=
      fun n hn => hfits.unmade n (Nat.le_of_succ_le hn)
    cases b with
    | true =>
        have hstage : u.place.stage = .arrived := by rw [hu.place rfl, hplace rfl]
        -- the reply object made here is the one that the call is going to be answered with
        have hserve := hfits.serve .opened (u.state.peer side.other).server.replies
          (s := { (u.state.peer side.other).server with
            replies := (u.state.peer side.other).server.replies + 1 }) (.inl ⟨hstage, rfl⟩) rfl
          ⟨Nat.lt_succ_self _, hfits.unmade _ (Nat.le_refl _)⟩ hunmade
        refine ⟨⟨.opened, (u.state.peer side.other).server.replies⟩, false, .move ?_ hserve (.inl rfl)
          rfl, ?_⟩
        · refine ⟨?_, fun hrank => ?_, fun _ _ => Nat.le_refl _⟩
          · rw [Duplex.update_peer]
            exact Nat.le_succ _
          · rw [hstage] at hrank
            exact absurd hrank (by decide)
        · apply forwards_method hP method htype rfl
          · intro _
            refine ⟨?_, fun _ => ⟨Nat.le_refl _, rfl⟩, fun hother => ?_⟩
            · show _ < ((Duplex.update _ _ _).peer side.other).server.replies
              rw [Duplex.update_peer]
              exact Nat.lt_succ_self _
            · rw [hb] at hother
              cases hother
          · intro r
            cases r with
            | ok _ => exact ⟨_, rfl⟩
            | error _ => exact ⟨_, rfl⟩
    | false =>
        obtain ⟨hle', hstays⟩ := hfits.serve_other
          (s := { (u.state.peer side.other).server with
            replies := (u.state.peer side.other).server.replies + 1 }) rfl (Nat.le_succ _)
          (fun _ => rfl) hunmade
        refine ⟨u.place, false, .stay hle' rfl hstays ht, ?_⟩
        apply forwards_method hP method htype rfl
        · intro _
          refine ⟨?_, fun hown => ?_, fun _ hrank => ?_⟩
          · show _ < ((Duplex.update _ _ _).peer side.other).server.replies
            rw [Duplex.update_peer]
            exact Nat.lt_succ_self _
          · rw [hb] at hown
            cases hown
          · -- the object of the call is older
            exact (hfits.object hrank).1.ne
        · intro r
          cases r with
          | ok _ => exact ⟨_, rfl⟩
          | error _ => exact ⟨_, rfl⟩

/-! ## What comes back -/

/-- No method ends the thread it is called on. -/
def DuplexCode.MethodsReturn (code : DuplexCode D Msg Ctx V) : Prop :=
  ∀ side id method, (code.peer side).serviceHandlerMapById.dlookup id = some method →
    ∀ message context, Returns (fun _ => True) (method.run message context)

/-- The request has been dealt with, or there is an exception. -/
def Reply.Settled (reply : Reply) : Prop :=
  reply.result = .ok (.ready (.value none)) ∨ ∃ e, reply.result = .error e

theorem returns_outbound (xs : List (UserInterceptor V Msg Ctx)) (args : Args Msg Ctx) :
    Returns (fun _ => True)
      ((code.outbound xs).call emptyHandler args : Prog _ Empty Empty Empty Reply) := by
  refine Returns.wraps ?_ (outbound_wraps xs args)
  intro _
  trivial

theorem returns_sendResponse (xs : List (UserInterceptor V Msg Ctx)) (origin : Option BaseReply)
    (rpcMeta : RpcMeta) (m : Msg) (context : Ctx) :
    Returns (fun _ => True) (sendResponse (code.outbound xs) origin rpcMeta m context) :=
  (returns_outbound xs _).lift.bind fun _ _ => trivial

theorem returns_run (object : BaseReply) (call : ReplyCall Msg Ctx) :
    Returns (fun _ => True)
      (object.run (code.service x).outboundInterceptor (code.service x).noMessage call) := by
  show Returns _ (object.run _ code.protobuf.emptyMeta call)
  rw [BaseReply.run_eq]
  intro s
  show Returns _ (ite _ _ _)
  split
  · trivial
  · split
    · trivial
    · split
      · exact returns_sendResponse _ _ _ _ _
      · trivial

theorem returns_methodHandler {method : RpcMethod code.protobuf Ctx V}
    (hm : ∀ message context, Returns (fun _ => True) (method.run message context)) (first : Bool)
    (args : Args Msg Ctx) :
    Returns Reply.Settled ((code.service x).methodHandler method.serviceMethod first args) := by
  intro s
  have hrun : Returns (fun _ => True) (method.serviceMethod.run args.message args.context) :=
    (hm _ _).lift.plug fun _ _ _ => trivial
  refine (hrun.lift.plug fun _ call => returns_run _ call).bind fun r _ => ?_
  cases r with
  | ok _ => exact .inl rfl
  | error e => exact .inr ⟨e, rfl⟩

theorem returns_inbound {method : RpcMethod code.protobuf Ctx V}
    (hm : ∀ message context, Returns (fun _ => True) (method.run message context))
    (args : Args Msg Ctx) :
    Returns Reply.Settled
      ((((code.service x).inboundInterceptor args).lift Server.promises Server.setPromises).plug
        ((code.service x).methodHandler method.serviceMethod) (fun _ => false) true) := by
  have hchain : Wraps (fun _ => True) (ask args ret)
      (((code.service x).inboundInterceptor args).lift Server.promises Server.setPromises :
        Prog _ (ServiceEvent Msg) _ _ _) :=
    (makeInterceptor_passes (onPromises_passes _) args).lift fun _ _ => trivial
  exact Returns.wraps (returns_methodHandler hm true args) hchain.plug

/-- After a request that has been dealt with there is nothing left to do. -/
theorem Reply.Settled.afterHandler {reply : Reply} (hs : reply.Settled) :
    ∃ r, (code.service x).afterHandler reply = .ret r := by
  obtain ⟨result, rpcMeta⟩ := reply
  obtain hresult | ⟨e, hresult⟩ := hs
  · obtain rfl : result = _ := hresult
    exact ⟨_, rfl⟩
  · obtain rfl : result = _ := hresult
    exact ⟨_, rfl⟩

section known

variable {r : KnownCall code x.other H T} {data : StringView} {context : Ctx}

theorem DuplexCode.MethodsReturn.known (hr : code.MethodsReturn) (r : KnownCall code x.other H T) :
    ∀ message context, Returns (fun _ => True) (r.method.run message context) := by
  intro message context
  exact hr x.other.other _ _ r.known message context

/-- The request of a known call is handed to its method. -/
theorem requestStub_known (hP : code.protobuf.RoundTrips) {n : ℕ}
    (hbytes : data.bytes = code.protobuf.serializeAsString r.request.request)
    (hlt : (code.protobuf.serializeAsString r.request.request).length < code.protobuf.sizeLimit)
    (hsize : toInt data.size = (code.protobuf.serializeAsString r.request.request).length) :
    (code.service x).requestStub (r.request.rpcMeta n) data context =
      ((((code.service x).inboundInterceptor ⟨r.request.rpcMeta n, r.request.request, context⟩).lift
          Server.promises Server.setPromises).plug
        ((code.service x).methodHandler r.method.serviceMethod) (fun _ => false) true).bind
          (code.service x).afterHandler := by
  have htype : ¬ (r.request.rpcMeta n).type ≠ .request := fun h => h rfl
  have hparse : parseMessage (code.service x).codec "request" r.method.requestType
      (r.request.rpcMeta n).encoding data = .ok r.request.request :=
    parseMessage_binary hP "request" r.request_class hbytes hlt hsize
  rw [ServiceCode.requestStub, if_neg htype, findHandler_known]
  show Prog.bind (ServiceCode.methodStub _ _ _ _ _) _ = _
  rw [ServiceCode.methodStub, parseRequestWrapper,
    show r.method.serviceMethod.type = r.method.requestType from rfl, hparse]

/-- The rest of the way is that of the method. -/
theorem forwards_requestStub (hP : code.protobuf.RoundTrips) (hr : code.MethodsReturn) {n : ℕ}
    (hbytes : data.bytes = code.protobuf.serializeAsString r.request.request)
    (hlt : (code.protobuf.serializeAsString r.request.request).length < code.protobuf.sizeLimit)
    (hsize : toInt data.size = (code.protobuf.serializeAsString r.request.request).length)
    (hb : Concerns side q x.other (r.request.rpcMeta n) = b)
    (hplace : b = true → t.place.stage = .arrived) :
    Forwards (code.way side q) b t
      (Duplex.onService x ((code.service x).requestStub (r.request.rpcMeta n) data context)) := by
  rw [requestStub_known hP hbytes hlt hsize]
  show Forwards _ _ _ (within _ _ _ (Prog.bind _ _))
  rw [within_bind]
  apply Forwards.bind_returns (Φ := Reply.Settled)
  · rw [within_plug, within_lift]
    refine Forwards.wraps (fun _ hf => hf) (fun t' hl => ?_) (serviceInbound_wraps_way _).plug
    apply forwards_methodHandler hP (by rfl) hb
    intro hb'
    rw [hl.place hb', hplace hb']
  · exact (returns_inbound (hr.known r) _).within
  · intro reply _ _ hsettled
    obtain ⟨r', hr'⟩ : ∃ r, (code.service x).afterHandler reply = .ret r := hsettled.afterHandler
    rw [hr']
    rfl

theorem returns_requestStub (hP : code.protobuf.RoundTrips) (hr : code.MethodsReturn) {n : ℕ}
    (hbytes : data.bytes = code.protobuf.serializeAsString r.request.request)
    (hlt : (code.protobuf.serializeAsString r.request.request).length < code.protobuf.sizeLimit)
    (hsize : toInt data.size = (code.protobuf.serializeAsString r.request.request).length) :
    Returns (fun _ => True)
      ((code.service x).requestStub (r.request.rpcMeta n) data context) := by
  rw [requestStub_known hP hbytes hlt hsize]
  apply (returns_inbound (hr.known r) _).bind
  intro reply hsettled
  obtain ⟨r', hr'⟩ : ∃ r, (code.service x).afterHandler reply = .ret r := hsettled.afterHandler
  rw [hr']
  trivial

end known

/-! ## Responses that come in -/

theorem clientInbound_wraps_way (args : Args Msg Ctx) :
    Wraps (code.way side q).Harmless
      (ask args ret : Prog (Duplex queue D H T Msg V) (DuplexEvent Msg) _ _ _)
      (((code.client x : ClientCode D H T Msg Ctx (Session V)).inbound args).lift
        (fun d => (d.peer x).session) (Duplex.setSession x)) := by
  refine (makeInterceptor_passes (onSession_passes _) args).lift fun f hf => ?_
  obtain ⟨g, rfl⟩ := hf
  exact way_harmless_session g

section response

variable {request : RpcMeta} {call : ReplyCall Msg Unit} {type : D} {data : StringView}
  {stub : ResponseStub D H} {context : Ctx}

theorem concerns_other {y : Side} :
    Concerns side q y.other (call.rpcMeta request) = true ↔
      y = side ∧ request.requestInfo.sequenceId = q := by
  rw [concerns_response]
  cases y <;> cases side <;> simp [Side.other]

/-- Whoever has taken the stub of the call calls its handle. -/
theorem forwards_runHandle {m : Msg} {error : Option RpcError}
    (hb : decide (x = side ∧ stub.owner = q) = b)
    (hplace : b = true → t.place.stage = .taken ∧ stub.handle.isSome = true) (id : UInt64) :
    Forwards (code.way side q) b t
      (Duplex.onClient x (runHandle (code.client x) id stub m error) :
        DuplexProg queue D H T Msg V) := by
  rw [runHandle]
  cases hhandle : stub.handle with
  | none =>
      cases b with
      | true =>
          rw [hhandle] at hplace
          cases (hplace rfl).2
      | false => rfl
  | some handle =>
      cases b with
      | true =>
          obtain ⟨rfl, howner⟩ := of_decide_eq_true hb
          intro u hu ht _ _
          have hstage : u.place.stage = .taken := by rw [hu.place rfl, (hplace rfl).1]
          -- the handle runs, with which the call is done
          have hfits := DuplexCode.OnItsWay.handle ht.fits
            (e := .client x (.handle id stub.owner m error)) hstage (fun _ => rfl)
            (by rw [← howner]; rfl)
          refine ⟨_, false, .move (.restage (Nat.le_refl _) ?_) hfits (.inl rfl) (by rfl), rfl⟩
          rw [hstage]
          decide
      | false =>
          apply Forwards.emit_idle (DuplexCode.way_idle (fun _ => rfl) ?_)
          · intro _ _ _
            rfl
          · intro hruns
            -- the handle of another call tells nothing of this one
            obtain ⟨hx, howner⟩ := DuplexEvent.runs_client.mp hruns
            exact of_decide_eq_false hb ⟨hx, Option.some.inj howner⟩

/-- The stub of a response calls the handle, whatever the inbound chain does meanwhile. -/
theorem forwards_runStub (hP : code.protobuf.RoundTrips) (hclass : call.OfClass code.protobuf type)
    (hbytes : data.bytes = code.protobuf.serializeAsString (call.message code.protobuf))
    (hlt : (code.protobuf.serializeAsString (call.message code.protobuf)).length < code.protobuf.sizeLimit)
    (hsize : toInt data.size =
      (code.protobuf.serializeAsString (call.message code.protobuf)).length)
    (htype : stub.type = type) (hb : decide (x = side ∧ stub.owner = q) = b)
    (hplace : b = true → t.place.stage = .taken ∧ stub.handle.isSome = true) (id : UInt64) :
    Forwards (code.way side q) b t
      (Duplex.onClient x (runStub (code.client x) id stub (call.rpcMeta request) data context) :
        DuplexProg queue D H T Msg V) := by
  rw [runStub, parseResponseWrapper, htype,
    show (code.client x : ClientCode D H T Msg Ctx (Session V)).codec =
      code.protobuf.toMessageCodec from rfl, parseMessage_response hP hclass hbytes hlt hsize]
  dsimp only
  -- the user's chain runs around the handle and neither hurries nor holds the call
  show Forwards _ _ _ (within _ _ _ (Prog.bind (Prog.plug _ _ _ (Prog.lift _ _ _)) _))
  rw [within_bind, within_plug, within_lift]
  refine Forwards.bind ?_ fun _ _ _ => rfl
  refine Forwards.wraps (fun _ hf => hf) (fun t' hl => ?_) (clientInbound_wraps_way _).plug
  show Forwards _ _ _ (within _ _ _ (Prog.bind (runHandle _ _ _ _ _) _))
  rw [within_bind]
  apply Forwards.bind
  · apply forwards_runHandle hb
    intro hb'
    rw [hl.place hb']
    exact hplace hb'
  · intro result _ _
    cases result <;> rfl

/-- After the section of `processRpcResponse`, which has found the stub. -/
theorem forwards_afterSection (hP : code.protobuf.RoundTrips) (hclass : call.OfClass code.protobuf type)
    (hbytes : data.bytes = code.protobuf.serializeAsString (call.message code.protobuf))
    (hlt : (code.protobuf.serializeAsString (call.message code.protobuf)).length < code.protobuf.sizeLimit)
    (hsize : toInt data.size =
      (code.protobuf.serializeAsString (call.message code.protobuf)).length)
    {host : Host queue D H T (Session V)}
    (hstub : ∀ {stub}, host.client.mStubHandleMap.lookup request.requestInfo.sequenceId = some stub →
      stub.owner = request.requestInfo.sequenceId ∧ stub.type = type)
    (hb : decide (x = side ∧ request.requestInfo.sequenceId = q) = b)
    (hplace : b = true → t.place.stage = .taken ∧
      ∃ stub, host.client.mStubHandleMap.lookup q = some stub ∧ stub.handle.isSome = true) :
    Forwards (code.way side q) b t
      (Duplex.onClient x (afterSection (code.client x) (call.rpcMeta request) data context host)) := by
  obtain ⟨hflag, -⟩ | ⟨-, stub, hfound, hp⟩ | ⟨r, hp, -, hnone⟩ :=
    afterSection_cases (code.client x) (call.rpcMeta request) data context host
  · rw [ReplyCall.rpcMeta_timeout] at hflag
    -- a response made by a reply object never tells a timeout
    cases hflag
  · rw [hp]
    rw [ReplyCall.rpcMeta_sequenceId] at hfound
    obtain ⟨howner, htype⟩ := hstub hfound
    apply forwards_runStub hP hclass hbytes hlt hsize htype
    · rw [howner]
      exact hb
    · intro hb'
      obtain ⟨hstage, stub', hfound', hhandle⟩ := hplace hb'
      rw [hb'] at hb
      rw [(of_decide_eq_true hb).2, hfound'] at hfound
      obtain rfl := Option.some.inj hfound
      exact ⟨hstage, hhandle⟩
  · rw [hp]
    cases b with
    | true =>
        -- the stub of the call is there, so something is run
        obtain ⟨-, stub, hfound, -⟩ := hplace rfl
        have hlookup := hnone (call.rpcMeta_timeout request)
        rw [ReplyCall.rpcMeta_sequenceId, (of_decide_eq_true hb).2, hfound] at hlookup
        cases hlookup
    | false => rfl

/-- A response takes the stub of its call out, and calls it. -/
theorem forwards_processRpcResponse (hP : code.protobuf.RoundTrips) {message : Msg}
    {method : RpcMethod code.protobuf Ctx V} (hrequest : t.state.Requested x request message)
    (hmethod : (code.peer x.other).serviceHandlerMapById.dlookup request.requestInfo.intMethod =
      some method) (hclass : call.OfClass code.protobuf method.responseType)
    (hbytes : data.bytes = code.protobuf.serializeAsString (call.message code.protobuf))
    (hlt : (code.protobuf.serializeAsString (call.message code.protobuf)).length < code.protobuf.sizeLimit)
    (hsize : toInt data.size =
      (code.protobuf.serializeAsString (call.message code.protobuf)).length)
    (hb : decide (x = side ∧ request.requestInfo.sequenceId = q) = b)
    (hplace : b = true → t.place.stage = .received) :
    Forwards (code.way side q) b t
      (Duplex.onClient x
        (processRpcResponse (code.client x) (call.rpcMeta request) data context) :
          DuplexProg queue D H T Msg V) := by
  rw [processRpcResponse_eq _ _ _ _ (call.rpcMeta_type request), ReplyCall.rpcMeta_sequenceId]
  intro u hu ht d hd _ hle hinv
  obtain rfl := Option.some.inj hd
  have hfits : code.OnItsWay side q u.place u.events u.state := ht.fits
  have hsound := DuplexCode.Fits.sound ht.inv x
  -- the class of the stub is that of the response
  have htype : ∀ {stub}, (u.state.peer x).client.mStubHandleMap.lookup
      request.requestInfo.sequenceId = some stub →
        stub.owner = request.requestInfo.sequenceId ∧ stub.type = method.responseType := by
    intro stub hstub
    obtain ⟨n, r, hn, rfl, -⟩ := hrequest.mono hu.record.state
    obtain ⟨c, rfl⟩ := hsound.known hn
    obtain rfl : method = c.method := Option.some.inj (hmethod.symm.trans c.known)
    have hid : (UInt64.ofNat n).toNat = n := by
      obtain ⟨hlen, -⟩ := List.getElem?_eq_some_iff.mp hn
      rw [hsound.count] at hlen
      exact UInt64.toNat_ofNat_of_lt' (hlen.trans ((DuplexCode.Fits.bounded ht.inv).calls x))
    obtain ⟨r, hr, htype⟩ := hsound.stub hstub
    have hr' : (u.state.peer x).calls[(UInt64.ofNat n).toNat]? = some r := hr
    rw [hid, hn] at hr'
    obtain rfl := Option.some.inj hr'
    exact ⟨hsound.consistent.stub_owner hstub, htype.trans c.response_class⟩
  cases b with
  | true =>
      obtain ⟨rfl, hid⟩ := of_decide_eq_true hb
      have hstage : u.place.stage = .received := by rw [hu.place rfl, hplace rfl]
      -- the entry is taken out of the map, so nobody else can run the handle
      have hmoved := hfits.moveStub (s := .taken) (p := { u.state.peer x with
          client := (u.state.peer x).client.forget request.requestInfo.sequenceId })
        (.inr ⟨hstage, rfl⟩) rfl rfl rfl (by simp)
      refine ⟨_, true, .move (.restage ?_ ?_) hmoved (.inl rfl) (by rfl), ?_⟩
      · rw [Duplex.update_peer_of_ne _ _ _ _ x.other_ne]
      · rw [hstage]
        decide
      · apply forwards_afterSection hP hclass hbytes hlt hsize htype hb
        intro _
        exact ⟨rfl, hfits.stub (by rw [hstage]; decide)⟩
  | false =>
      have hother := of_decide_eq_false hb
      obtain ⟨hle', hstays⟩ := hfits.congr (x := x) (p := { u.state.peer x with
          client := (u.state.peer x).client.forget request.requestInfo.sequenceId }) (fun _ => rfl)
        (fun hx => Finmap.lookup_erase_ne fun hid => hother ⟨hx, hid.symm⟩) rfl rfl (fun _ => rfl)
        fun _ => rfl
      refine ⟨u.place, false, .stay hle' rfl hstays ht, ?_⟩
      exact forwards_afterSection hP hclass hbytes hlt hsize htype hb (by simp)

theorem returns_runStub (rpcMeta : RpcMeta) (id : UInt64) :
    Returns (fun _ => True) (runStub (code.client x) id stub rpcMeta data context :
      ClientProg queue D H T Msg (Session V)) := by
  refine Returns.bind (P := fun _ => True) ?_ fun _ _ => trivial
  unfold parseResponseWrapper
  split
  · trivial
  · have hchain : ∀ args : Args Msg Ctx, Wraps (fun _ => True) (ask args ret)
        ((code.client x : ClientCode D H T Msg Ctx (Session V)).mInboundInterceptor args :
          Prog (Host queue D H T (Session V)) (ClientEvent Msg) _ _ _) := by
      intro args
      exact (makeInterceptor_passes (onSession_passes _) args).lift fun _ _ => trivial
    refine Returns.wraps ?_ (hchain _).plug
    rw [runHandle]
    cases stub.handle with
    | none => trivial
    | some handle => trivial

theorem returns_processRpcResponse {rpcMeta : RpcMeta} (htype : rpcMeta.type = .response)
    (htimeout : rpcMeta.responseInfo.timeout = false) :
    Returns (fun _ => True) (processRpcResponse (code.client x) rpcMeta data context :
      ClientProg queue D H T Msg (Session V)) := by
  rw [processRpcResponse_eq _ _ _ _ htype]
  intro h
  obtain ⟨hflag, -⟩ | ⟨-, stub, -, hp⟩ | ⟨r, hp, -⟩ :=
    afterSection_cases (code.client x) rpcMeta data context h
  · rw [htimeout] at hflag
    cases hflag
  · rw [hp]
    exact returns_runStub _ _
  · rw [hp]
    trivial

end response

end forwarding

end GayRpc
