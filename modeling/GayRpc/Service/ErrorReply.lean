import GayRpc.Core.Service
import GayRpc.Lib.Ledger
import GayRpc.Lib.Prompt
import GayRpc.Lib.Sequel
import GayRpc.Utils.Interceptor

/-!
# Where errors are sent

A reply object has the ids of the meta it was made of. The stub, however, looks for the ids in the meta
of the request after the chain has come back, when the chain may have moved it away.

The conditions are about the code around the stub only: on which reply objects the service calls, and
what the inbound chain comes back with. What the library makes of that is in the lemmas: a reply object
answers by the first call on it, at once (`prompt_methodStub`), and shows nothing but responses to the
meta it was made of; the stub sends what it is told of (`Reply.Reports.run`), and nothing else.

An error may come by way of a promise. The stub asks whether the promise is fulfilled when the chain has
come back, and if it is, an exception counts as much as an error string. If it is not, the stub waits, and
an exception is dropped later. When exactly the stub looks is up to the scheduler. So for a property of
all runs it does not matter, and `Reply.Reports` is said of any state after the chain has come back.
-/

namespace GayRpc

/-- A meta with the ids of the request. -/
def SameIds (request rpcMeta : RpcMeta) : Prop :=
  rpcMeta.serviceId = request.serviceId ∧
    rpcMeta.requestInfo.sequenceId = request.requestInfo.sequenceId

instance (request rpcMeta : RpcMeta) : Decidable (SameIds request rpcMeta) :=
  inferInstanceAs (Decidable (_ ∧ _))

/-- A response with the ids of the request. -/
def AnswersTo (request rpcMeta : RpcMeta) : Prop :=
  rpcMeta.serviceId = request.serviceId ∧
    rpcMeta.responseInfo.sequenceId = request.requestInfo.sequenceId

instance (request rpcMeta : RpcMeta) : Decidable (AnswersTo request rpcMeta) :=
  inferInstanceAs (Decidable (_ ∧ _))

/-- What is handed out as a response has the ids of the request. -/
def ServiceEvent.Answers {Msg : Type} (request : RpcMeta) : ServiceEvent Msg → Prop
  | .called .. => True
  | .response _ rpcMeta _ => AnswersTo request rpcMeta

/-- The service makes the first call on the object. -/
def ServiceEvent.Calls {Msg : Type} (object : BaseReply) : ServiceEvent Msg → Prop
  | .called o _ first => o = object ∧ first = true
  | .response .. => False

/-- The object gives an answer. -/
def ServiceEvent.Gives {Msg : Type} (object : BaseReply) : ServiceEvent Msg → Prop
  | .called .. => False
  | .response origin _ _ => origin = some object

/-- An object whose first call is answered: the meta it was made of asks for a response, and there is
somebody to hand it to. -/
def BaseReply.Answering (object : BaseReply) : Prop :=
  object.mRequestMeta.requestInfo.expectResponse = true ∧ object.hasOutboundInterceptor = true

/-- What is sent as a response is a reply, or an error, which goes without a message. -/
def ReplyOrError {Msg : Type} (noMessage : Msg) (rpcMeta : RpcMeta) (message : Msg) : Prop :=
  (∃ mRequestMeta, rpcMeta = replyMeta mRequestMeta) ∨
    (message = noMessage ∧ ∃ serviceId seqId errorCode reason,
      rpcMeta = errorMeta serviceId seqId errorCode reason)

/-- There is an error to report: an error string, or an exception that says what it is. -/
def Outcome.Reported : Outcome → Prop
  | .value err => err.isSome
  | .exception e => e ≠ .unknown

/-- The chain has come back with an error, or the promise it left has ended with one. -/
def Reply.Reports {U : Type} (reply : Reply) (s : Server U) : Prop :=
  match reply.result with
  | .error _ => False
  | .ok (.ready o) => o.Reported
  | .ok (.pending promise) => ∃ o, s.promises.fulfilled promise = some o ∧ o.Reported

/-- What happens around the stub: the user's part of the state changes at will. -/
def userDrift {U : Type} (s s' : Server U) : Prop := ∃ u, s' = s.setUser u

open Prog Pool

section stub

variable {D Msg Ctx U : Type} (code : ServiceCode D Msg Ctx U)

/-- Sending changes nothing but the user's part of the state. -/
theorem guarantees_sendResponse {I : Server U → Prop} {C : Server U → Server U → Prop}
    {G : ServiceEvent Msg → Prop} (hC : ∀ s u, I s → C s (s.setUser u))
    {outbound : UnaryServerInterceptor U Empty Msg Ctx} {origin : Option BaseReply} {rpcMeta : RpcMeta}
    {message : Msg} {context : Ctx} (hG : G (.response origin rpcMeta message)) :
    (sendResponse outbound origin rpcMeta message context).Guarantees I C G := by
  refine ⟨hG, Guarantees.bind ?_ fun _ => trivial⟩
  apply Guarantees.lift
  intro s u hs
  exact hC s u hs

/-- Sending shows the response, and nothing else. -/
theorem prompt_sendResponse {asks gives : ServiceEvent Msg → Prop}
    (hasks : ∀ origin rpcMeta message, ¬ asks (.response origin rpcMeta message))
    (outbound : UnaryServerInterceptor U Empty Msg Ctx) (origin : Option BaseReply) (rpcMeta : RpcMeta)
    (message : Msg) (context : Ctx) :
    (sendResponse outbound origin rpcMeta message context).Prompt asks gives :=
  ⟨fun h => absurd h (hasks _ _ _), Prompt.bind (Prompt.lift _) fun _ => trivial⟩

/-! ## Reply objects -/

section objects

variable {G : ServiceEvent Msg → Prop} {noMessage : Msg}

/-- A reply object answers only if the meta it was made of asks for an answer. -/
theorem keeps_answer {object : BaseReply} {call : ReplyCall Msg Unit}
    {send : ServerProg U Msg (Except Exn Unit)} (hcalled : ∀ first, G (.called object call first))
    (hsend : object.Answering → send.Keeps (fun _ => True) G) :
    (object.answer call send).Keeps (fun _ => True) G := by
  intro s _ s' _
  refine ⟨trivial, hcalled _, ?_⟩
  split
  · trivial
  · split
    · trivial
    · next hexpect =>
        split
        · next houtbound => exact hsend ⟨by simpa using hexpect, houtbound⟩
        · trivial

/-- The calls on a reply object. -/
theorem keeps_run (hcalled : ∀ object call first, G (.called object call first))
    (hG : ∀ object rpcMeta message, AnswersTo object.mRequestMeta rpcMeta → object.Answering →
      ReplyOrError noMessage rpcMeta message → G (.response (some object) rpcMeta message))
    (outbound : UnaryServerInterceptor U Empty Msg Ctx) (object : BaseReply)
    (call : ReplyCall Msg Ctx) : (object.run outbound noMessage call).Keeps (fun _ => True) G := by
  cases call with
  | reply response context =>
      apply keeps_answer (hcalled _ _)
      intro hanswering
      apply guarantees_sendResponse fun _ _ _ => trivial
      exact hG _ _ _ ⟨rfl, rfl⟩ hanswering (.inl ⟨_, rfl⟩)
  | error errorCode reason context =>
      apply keeps_answer (hcalled _ _)
      intro hanswering
      apply guarantees_sendResponse fun _ _ _ => trivial
      exact hG _ _ _ ⟨rfl, rfl⟩ hanswering (.inr ⟨rfl, _, _, _, _, rfl⟩)

/-- Up to where the chain comes back, only reply objects answer. -/
theorem keeps_methodStub (hcalled : ∀ object call first, G (.called object call first))
    (hG : ∀ object rpcMeta message, AnswersTo object.mRequestMeta rpcMeta → object.Answering →
      ReplyOrError code.noMessage rpcMeta message → G (.response (some object) rpcMeta message))
    (method : ServiceMethod D Msg Ctx U) (rpcMeta : RpcMeta) (data : StringView) (context : Ctx) :
    (code.methodStub method rpcMeta data context).Keeps (fun _ => True) G := by
  unfold ServiceCode.methodStub parseRequestWrapper
  cases parseMessage code.codec "request" method.type rpcMeta.encoding data with
  | error e => trivial
  | ok request =>
      refine Guarantees.plug (Guarantees.lift (fun _ _ _ => trivial) _) (fun first args => ?_) true
      intro s _ s' _
      refine ⟨trivial, Guarantees.bind ?_ fun r => ?_⟩
      · refine Guarantees.plug (Guarantees.lift (fun _ _ _ => trivial) _) (fun _ call => ?_) ()
        exact keeps_run hcalled hG _ _ call
      · cases r with
        | ok _ => trivial
        | error _ => trivial

/-- The first call on an object that answers is answered at once. -/
theorem prompt_answer {o : BaseReply} (ho : o.Answering) (outbound : UnaryServerInterceptor U Empty Msg Ctx)
    (object : BaseReply) (call : ReplyCall Msg Unit) (rpcMeta : RpcMeta) (message : Msg) (context : Ctx) :
    (object.answer call (sendResponse outbound (some object) rpcMeta message context)).Prompt
      (ServiceEvent.Calls o) (ServiceEvent.Gives o) := by
  intro s
  constructor
  · rintro ⟨rfl, hfirst⟩
    have hclear : ¬ s.mReplyFlag object.number = true := by simpa using hfirst
    rw [if_neg hclear, ho.1, if_neg (by simp), if_pos ho.2]
    exact ⟨_, _, rfl, rfl⟩
  · split
    · trivial
    · split
      · trivial
      · split
        · exact prompt_sendResponse (fun _ _ _ => id) _ _ _ _ _
        · trivial

theorem prompt_methodStub {o : BaseReply} (ho : o.Answering) (method : ServiceMethod D Msg Ctx U)
    (rpcMeta : RpcMeta) (data : StringView) (context : Ctx) :
    (code.methodStub method rpcMeta data context).Prompt (ServiceEvent.Calls o)
      (ServiceEvent.Gives o) := by
  unfold ServiceCode.methodStub parseRequestWrapper
  cases parseMessage code.codec "request" method.type rpcMeta.encoding data with
  | error e => trivial
  | ok request =>
      refine Prompt.plug (Prompt.lift _) (fun first args => ?_) true
      intro s
      refine Prompt.bind (Prompt.plug (Prompt.lift _) (fun _ call => ?_) ()) fun r => ?_
      · cases call with
        | reply response context => exact prompt_answer ho _ _ _ _ _ _
        | error errorCode reason context => exact prompt_answer ho _ _ _ _ _ _
      · cases r with
        | ok _ => trivial
        | error _ => trivial

/-- Nothing is asked of the state, and a reply object may answer once it has been called. -/
def callLedger : Ledger (Server U) (ServiceEvent Msg) where
  bound _ := True
  inv _ _ := True
  le _ _ := True
  may h _ e := ∀ o : BaseReply, e.Gives o → ∃ e ∈ h, e.Calls o
  le_refl _ := trivial
  le_trans _ _ := trivial
  inv_append _ _ := trivial

theorem honors_lift {T Q A R : Type} {h : List (ServiceEvent Msg)} {s : Server U} {get : Server U → T}
    {set : Server U → T → Server U} (p : Prog T Empty Q A R) :
    Honors callLedger (fun _ => True) (fun _ => True) h s
      (p.lift get set : Prog (Server U) (ServiceEvent Msg) Q A R) :=
  .lift (fun _ _ _ _ _ _ _ => ⟨trivial, trivial⟩) p

/-- A reply object answers after the call. -/
theorem honors_answer {h : List (ServiceEvent Msg)} {s : Server U}
    (outbound : UnaryServerInterceptor U Empty Msg Ctx) (object : BaseReply) (call : ReplyCall Msg Unit)
    (rpcMeta : RpcMeta) (message : Msg) (context : Ctx) :
    Honors callLedger (fun _ => True) (fun _ => True) h s
      (object.answer call (sendResponse outbound (some object) rpcMeta message context)) := by
  intro h₁ s₁ _ _ s₁' _ _
  refine ⟨trivial, trivial, fun h₂ s₂ _ _ => ⟨fun _ hgives => hgives.elim, ?_⟩⟩
  split
  · trivial
  · next hclear =>
      split
      · trivial
      · split
        · intro h₃ s₃ hl _
          refine ⟨fun o hgives => ?_, Honors.bind (honors_lift _) fun _ _ _ _ _ => trivial⟩
          obtain rfl : object = o := Option.some.inj hgives
          refine ⟨_, hl.mem (List.mem_append_right h₂ (List.mem_singleton.mpr rfl)), rfl, ?_⟩
          simpa using hclear
        · trivial

theorem honors_methodStub {h : List (ServiceEvent Msg)} {s : Server U} (method : ServiceMethod D Msg Ctx U)
    (rpcMeta : RpcMeta) (data : StringView) (context : Ctx) :
    Honors callLedger (fun _ => True) (fun _ => True) h s
      (code.methodStub method rpcMeta data context) := by
  unfold ServiceCode.methodStub parseRequestWrapper
  cases parseMessage code.codec "request" method.type rpcMeta.encoding data with
  | error e => trivial
  | ok request =>
      refine Honors.plug (honors_lift _) fun first args h₁ s₁ _ _ => ?_
      intro h₂ s₂ _ _ s₂' _ _
      refine ⟨trivial, trivial, Honors.bind (Honors.plug (honors_lift _) fun _ call h₃ s₃ _ _ => ?_) ?_⟩
      · cases call with
        | reply response context => exact honors_answer _ _ _ _ _ _
        | error errorCode reason context => exact honors_answer _ _ _ _ _ _
      · intro r _ _ _ _
        cases r with
        | ok _ => trivial
        | error _ => trivial

end objects

section chain

variable {method : ServiceMethod D Msg Ctx U} {request : RpcMeta} {data : StringView} {context : Ctx}
  {s : Server U} {es : List (ServiceEvent Msg)} {b : Pool (Server U) (ServiceEvent Msg) Empty Reply}

/-- An object that answers and has been called has answered, or can do so in the next step. -/
theorem answered_next {o : BaseReply} (ho : o.Answering)
    (hrun : Run (World.drifting userDrift)
      ⟨s, [(code.methodStub method request data context).bind .ret]⟩ es b)
    (hcalled : ∃ e ∈ es, e.Calls o) :
    ∃ fs c, Run (World.drifting userDrift) b fs c ∧ ∃ e ∈ es ++ fs, e.Gives o := by
  have hprompt := prompt_methodStub code ho method request data context
  apply hrun.answered_next (fun _ h => False.elim h) _ trivial hcalled
  simpa using hprompt.bind (k := ret) fun _ => trivial

/-- A response that is shown before the chain comes back is one of a reply object that answers. -/
theorem response_of_methodStub (hrun : Run (World.drifting userDrift)
      ⟨s, [(code.methodStub method request data context).bind .ret]⟩ es b) {origin : Option BaseReply}
    {rpcMeta : RpcMeta} {message : Msg} (he : .response origin rpcMeta message ∈ es) :
    ∃ object, origin = some object ∧ AnswersTo object.mRequestMeta rpcMeta ∧ object.Answering := by
  have hkeeps := (keeps_methodStub code
    (G := fun e => ∀ origin rpcMeta message, e = .response origin rpcMeta message →
      ∃ object, origin = some object ∧ AnswersTo object.mRequestMeta rpcMeta ∧ object.Answering)
    (by simp) (by grind) method request data context).bind (k := ret) fun _ => trivial
  exact hrun.shows hkeeps _ he _ _ _ rfl

/-- A reply object that has answered has been called. -/
theorem called_of_response (hrun : Run (World.drifting userDrift)
      ⟨s, [(code.methodStub method request data context).bind .ret]⟩ es b) {object : BaseReply}
    {rpcMeta : RpcMeta} {message : Msg} (he : .response (some object) rpcMeta message ∈ es) :
    ∃ e ∈ es, e.Calls object := by
  have hrespects : (World.drifting userDrift : World (Server U) (ServiceEvent Msg) Empty Reply).Respects
      callLedger := ⟨fun _ _ => trivial, fun _ _ _ _ _ _ => ⟨trivial, trivial⟩, fun _ h => False.elim h⟩
  have hstart : Honors callLedger (fun _ => True) (fun _ => True) [] s
      ((code.methodStub method request data context).bind ret) :=
    (honors_methodStub code method request data context).bind fun _ _ _ _ _ => trivial
  obtain ⟨-, hadmits⟩ := hrun.honored hrespects ⟨trivial, by simpa using hstart⟩
  obtain ⟨before, after, rfl⟩ := List.append_of_mem he
  obtain ⟨t, -, hmay⟩ := hadmits before _ after rfl
  obtain ⟨e, he, hcalls⟩ := hmay object rfl
  exact ⟨e, List.mem_append_left _ he, hcalls⟩

end chain

/-! ## What the stub reports -/

/-- What the stub shows of an error that it sends back. -/
def ServiceCode.errorEvent (rpcMeta : RpcMeta) (err : String) : ServiceEvent Msg :=
  .response none (errorMeta rpcMeta.serviceId rpcMeta.requestInfo.sequenceId 0 err) code.noMessage

theorem guarantees_reportError {I : Server U → Prop} {C : Server U → Server U → Prop}
    {G : ServiceEvent Msg → Prop} (hC : ∀ s u, I s → C s (s.setUser u)) {rpcMeta : RpcMeta}
    {err : String} (hG : G (code.errorEvent rpcMeta err)) :
    (code.reportError rpcMeta err).Guarantees I C G :=
  guarantees_sendResponse hC hG

/-- A future that has something to report has a text. -/
theorem reportOutcome_of_reported {o : Outcome} (ho : o.Reported) (rpcMeta : RpcMeta) :
    ∃ err, code.reportOutcome rpcMeta o = code.reportError rpcMeta err := by
  rcases o with (_ | err) | e
  · cases ho
  · exact ⟨err, rfl⟩
  · exact ⟨e.caughtText, if_neg ho⟩

theorem guarantees_reportOutcome {I : Server U → Prop} {C : Server U → Server U → Prop}
    {G : ServiceEvent Msg → Prop} (hC : ∀ s u, I s → C s (s.setUser u)) {rpcMeta : RpcMeta} {o : Outcome}
    (hG : o.Reported → ∀ err, G (code.errorEvent rpcMeta err)) :
    (code.reportOutcome rpcMeta o).Guarantees I C G := by
  rcases o with (_ | err) | e
  · trivial
  · exact guarantees_reportError code hC (hG rfl err)
  · show Guarantees I C G (if e = .unknown then .halt else code.reportError rpcMeta e.caughtText)
    split
    · trivial
    · next he => exact guarantees_reportError code hC (hG he _)

/-- Nothing is sent but the errors that the chain comes back with. -/
theorem guarantees_afterHandler {G : ServiceEvent Msg → Prop} {I : Server U → Prop} {reply : Reply}
    (hG : ∀ s, I s → reply.Reports s → ∀ err, G (code.errorEvent reply.rpcMeta err)) {s : Server U}
    (hs : I s) : (code.afterHandler reply).Guarantees I userDrift G := by
  have hC : ∀ (s : Server U) u, I s → userDrift s (s.setUser u) := fun s u _ => ⟨u, rfl⟩
  obtain ⟨result, rpcMeta⟩ := reply
  rcases result with e | o | promise
  · trivial
  · exact guarantees_reportOutcome code hC (hG s hs)
  · intro s₁ hs₁ s₁' hs₁'
    obtain rfl := Option.some.inj hs₁'
    refine ⟨⟨s₁.user, rfl⟩, ?_⟩
    show Guarantees I userDrift G (code.reportPromise rpcMeta promise (s₁.promises.fulfilled promise))
    cases hlook : s₁.promises.fulfilled promise with
    | some o => exact guarantees_reportOutcome code hC fun ho => hG s₁ hs₁ ⟨o, hlook, ho⟩
    | none =>
        -- the lambda looks again when the promise has been fulfilled
        refine ⟨fun s₂ hs₂ s₂' hs₂' => ?_, trivial⟩
        obtain ⟨-, hs₂'⟩ := Option.ite_none_right_eq_some.mp hs₂'
        obtain rfl := Option.some.inj hs₂'
        refine ⟨⟨s₂.user, rfl⟩, ?_⟩
        dsimp only
        split
        · next err hfulfilled =>
            exact guarantees_reportError code hC (hG s₂ hs₂ ⟨_, hfulfilled, rfl⟩ err)
        · trivial

/-- The stub comes to send an error that the chain has come back with. -/
theorem Reply.Reports.run {reply : Reply} {s : Server U} (h : reply.Reports s)
    (l r : List (ServerProg U Msg (Except Exn Unit))) :
    ∃ err, Run (World.drifting userDrift) ⟨s, l ++ code.afterHandler reply :: r⟩ []
      ⟨s, l ++ code.reportError reply.rpcMeta err :: r⟩ := by
  obtain ⟨result, rpcMeta⟩ := reply
  rcases result with e | o | promise
  · exact h.elim
  · obtain ⟨err, hreport⟩ := reportOutcome_of_reported code (o := o) h rpcMeta
    refine ⟨err, ?_⟩
    rw [← hreport]
    exact .refl
  · obtain ⟨o, hfulfilled, ho⟩ := h
    obtain ⟨err, hreport⟩ := reportOutcome_of_reported code ho rpcMeta
    have hlook : Run (World.drifting userDrift)
        ⟨s, l ++ code.afterHandler ⟨.ok (.pending promise), rpcMeta⟩ :: r⟩ [] _ :=
      .single (.act l r rfl trivial)
    rw [hfulfilled] at hlook
    refine ⟨err, ?_⟩
    rw [← hreport]
    exact hlook

/-- An error that the chain has come back with is sent, to the ids of the meta that is left. -/
theorem Reply.Reports.sent {reply : Reply} {s : Server U} (h : reply.Reports s)
    (l r : List (ServerProg U Msg (Except Exn Unit))) {G : ServiceEvent Msg → Prop}
    (hall : ∀ es b, Run (World.drifting userDrift) ⟨s, l ++ code.afterHandler reply :: r⟩ es b →
      ∀ e ∈ es, G e) : ∃ err, G (code.errorEvent reply.rpcMeta err) := by
  obtain ⟨err, hrun⟩ := h.run code l r
  exact ⟨err, hall _ _ (hrun.tail (.emit l r _ trivial)) _ (List.mem_singleton.mpr rfl)⟩

/-- The chain and the service treat the meta of a request well. The reply objects that the service calls
were made of a meta with the ids of the request; and when an error comes back, at once or by way of a
promise, the meta that was passed still has them. So it was not moved away before, unless both ids are
0. -/
structure ServiceCode.KeepsIds (method : ServiceMethod D Msg Ctx U) (request : RpcMeta)
    (data : StringView) (context : Ctx) : Prop where
  object : ∀ {s es b}, Run (World.drifting userDrift)
      ⟨s, [(code.methodStub method request data context).bind .ret]⟩ es b →
    ∀ e ∈ es, ∀ o : BaseReply, e.Calls o → o.Answering → SameIds request o.mRequestMeta
  error : ∀ {s es reply s'}, ReturnsIn userDrift (code.methodStub method request data context) s es
      reply s' → reply.Reports s' → SameIds request reply.rpcMeta

variable {method : ServiceMethod D Msg Ctx U} {request : RpcMeta} {data : StringView} {context : Ctx}

/-- What the stub does before the chain comes back, and what it is about to do then, it may do. -/
theorem keepsIds_of_answers
    (h : ∀ s es b, Run (World.drifting userDrift)
      ⟨s, [(code.methodStub method request data context).bind code.afterHandler]⟩ es b →
      ∀ e ∈ es, e.Answers request) : code.KeepsIds method request data context where
  object {s es b} hrun e he o hcalls ho := by
    obtain ⟨fs, c, hnext, e', he', hgives⟩ := answered_next code ho hrun ⟨e, he, hcalls⟩
    have hmore := hrun.trans hnext
    cases e' with
    | called object call first => exact hgives.elim
    | response origin rpcMeta message =>
        obtain rfl : origin = some o := hgives
        obtain ⟨object, horigin, ⟨hserviceId, hseq⟩, -⟩ := response_of_methodStub code hmore he'
        obtain rfl := Option.some.inj horigin
        have halong : Run (World.drifting userDrift)
            (along .ret [] (code.methodStub method request data context) s) (es ++ fs) c := hmore
        obtain ⟨l', q', s', -, hall⟩ := halong.of_along
        -- a run without the end of the stub is one with it, and the answer is a response of that one
        obtain ⟨hid, hq⟩ := h s _ _ (hall code.afterHandler) _ he'
        exact ⟨hserviceId.symm.trans hid, hseq.symm.trans hq⟩
  error {s es reply s'} hreturns hreports := by
    obtain ⟨l, hrun⟩ := hreturns.sequel code.afterHandler
    obtain ⟨err, hsent⟩ := hreports.sent code (l.map mute) [] fun fs b hrest e he =>
      h s (es ++ fs) b (hrun.trans hrest) e (List.mem_append_right _ he)
    exact hsent

/-- Nothing of what the stub does after the chain has come back goes astray. -/
theorem answers_of_keepsIds (h : code.KeepsIds method request data context) (s : Server U)
    (es : List (ServiceEvent Msg)) (b : Pool (Server U) (ServiceEvent Msg) Empty (Except Exn Unit))
    (hrun : Run (World.drifting userDrift)
      ⟨s, [(code.methodStub method request data context).bind code.afterHandler]⟩ es b) :
    ∀ e ∈ es, e.Answers request := by
  refine hrun.sequel (fun es b hchain e he => ?_) fun es reply s' hreturns => ?_
  · cases e with
    | called object call first => trivial
    | response origin rpcMeta message =>
        obtain ⟨object, rfl, ⟨hserviceId, hseq⟩, ho⟩ := response_of_methodStub code hchain he
        obtain ⟨e, he, hcalls⟩ := called_of_response code hchain he
        obtain ⟨hid, hq⟩ := h.object hchain e he object hcalls ho
        exact ⟨hserviceId.trans hid, hseq.trans hq⟩
  · refine guarantees_afterHandler code (fun s'' hs'' hreports err => ?_) ⟨es, hreturns⟩
    obtain ⟨es', hreturns'⟩ := hs''
    exact h.error hreturns' hreports

theorem requestStub_eq (htype : request.type = .request) (data : StringView) (context : Ctx) :
    code.requestStub request data context =
      match code.findHandler request with
      | .error what => code.reportError request what
      | .ok handler => (code.methodStub handler request data context).bind code.afterHandler :=
  if_neg (not_not.mpr htype)

/-- Every response to a request goes where the request came from, whatever happens beside the stub, just
when the method is not known, or the chain and the service keep the ids. -/
theorem answers_request_iff (htype : request.type = .request) (data : StringView)
    (context : Ctx) :
    (∀ s es b, Run (World.drifting userDrift) ⟨s, [code.requestStub request data context]⟩ es b →
        ∀ e ∈ es, e.Answers request) ↔
      ∀ method, code.findHandler request = .ok method →
        code.KeepsIds method request data context := by
  have hstub := requestStub_eq code htype data context
  cases hmethod : code.findHandler request with
  | error what =>
      rw [hmethod] at hstub
      refine iff_of_true (fun s es b hrun => ?_) (by simp)
      rw [hstub] at hrun
      have hids : (code.errorEvent request what).Answers request := ⟨rfl, rfl⟩
      exact hrun.shows (guarantees_reportError code (fun _ _ _ => trivial) hids)
  | ok method =>
      rw [hmethod] at hstub
      simp only [Except.ok.injEq, forall_eq', hstub]
      exact ⟨keepsIds_of_answers code, answers_of_keepsIds code⟩

end stub

/-! A service whose one method throws. -/

def throwingService (inboundInterceptor : UnaryServerInterceptor (Promises Unit) Empty Unit Unit) :
    ServiceCode Unit Unit Unit Unit where
  codec :=
    { parseFromArray := fun _ _ _ => some ()
      jsonStringToMessage := fun _ _ => .ok ()
      serializeAsString := fun _ => []
      typeName := fun _ => "" }
  inboundInterceptor := inboundInterceptor
  outboundInterceptor := makeInterceptor []
  serviceHandlerMapById := Finmap.singleton 2
    { type := (), run := fun _ _ => .ret (.error (.runtimeError "out of order")) }
  serviceHandlerMapByStr := ∅
  emptyContext := ()
  noMessage := ()

def seventhRequest : RpcMeta :=
  { serviceId := 5
    request := some { intMethod := 2, expectResponse := true, sequenceId := 7 } }

def turnAway : UnaryServerInterceptor (Promises Unit) Empty Unit Unit := fun args =>
  .ret { result := .ok (.ready (.value (some "not now"))), rpcMeta := args.rpcMeta }

/-- Who does not call the next interceptor does not move the meta, and the error finds its way. -/
theorem answers_request_iff_example :
    seventhRequest.type = .request ∧ ∀ s es b, Run (World.drifting userDrift)
        ⟨s, [(throwingService turnAway).requestStub seventhRequest ⟨[], 0, 0⟩ ()]⟩ es b →
      ∀ e ∈ es, e.Answers seventhRequest := by
  have htype : seventhRequest.type = .request := rfl
  refine ⟨htype, ?_⟩
  apply (answers_request_iff (throwingService turnAway) htype ⟨[], 0, 0⟩ ()).mpr
  intro method hmethod
  have hstub : (throwingService turnAway).methodStub method seventhRequest ⟨[], 0, 0⟩ () =
      .ret { result := .ok (.ready (.value (some "not now"))), rpcMeta := seventhRequest } := rfl
  refine ⟨fun hrun e he _ _ _ => ?_, fun hreturns _ => ?_⟩
  · rw [hstub] at hrun
    rw [hrun.eq_nil (by trivial)] at he
    cases he
  · rw [hstub] at hreturns
    rw [hreturns.eq_of_ret]
    exact ⟨rfl, rfl⟩

/-- An exception of the method is sent to the service 0, as the answer to its request 0. -/
theorem protectedCall_answers_zero :
    ∃ s es b, Run (World.drifting userDrift)
        ⟨s, [(throwingService (makeInterceptor [withProtectedCall])).requestStub seventhRequest
          ⟨[], 0, 0⟩ ()]⟩ es b ∧
      ∃ e ∈ es, ¬ e.Answers seventhRequest := by
  have h1 : Run (World.drifting userDrift)
      ⟨{ promises := { user := () } }, [(throwingService (makeInterceptor [withProtectedCall])).requestStub
        seventhRequest ⟨[], 0, 0⟩ ()]⟩ [] _ := .single (.act [] [] rfl trivial)
  have h2 := h1.tail (.emit [] [] _ trivial)
  refine ⟨_, _, _, h2, _, List.mem_singleton.mpr rfl, ?_⟩
  intro h
  exact absurd h.1 (by decide)

end GayRpc
