import GayRpc.Protocol.Http
import GayRpc.Service.ErrorReply

/-!
# What an HTTP caller gets to see

Whether a request has failed, with which code and for what reason, is in the meta of a response. Over HTTP
only the message is sent, and all errors go out with the same one, an empty `RpcMeta`.

Two responses are compared that any two runs of the stub show, to any two requests. They differ for a
client if one of them tells of success and the other one of an error, or if they tell of different errors
(`Differs`). Where they differ, the caller can tell so from the bytes just when one of the two is a success
whose message does not print as an empty `RpcMeta` does (`httpResponse_tells_iff`).

For that it has to be known of every response what it is: a reply, or an error, which goes without a
message of its own (`keeps_requestStub`). How JSON is printed and what HTTP puts around it are parameters;
all that is asked of the latter is that the body is not lost.
-/

namespace GayRpc

/-- What is done to an HTTP session, with what is sent. -/
inductive HttpEvent where
  | send (response : String)
  | postShutdown

def HttpEvent.sessionEvent : HttpEvent → SessionEvent
  | send _ => .httpSend
  | postShutdown => .postShutdown

namespace Http

variable {σ Msg Ctx : Type} (format : HttpFormat Msg)

/-- `withHttpSessionSender`, with what it sends. -/
def withHttpSessionSender : UnaryServerInterceptor σ HttpEvent Msg Ctx := fun args =>
  .emit (.send (send format args.rpcMeta args.message)) (.emit .postShutdown (.ask args .ret))

/-- It is the interceptor of the library. -/
theorem within_withHttpSessionSender (args : Args Msg Ctx) :
    (withHttpSessionSender format args).within some (fun _ s => s) HttpEvent.sessionEvent =
      (GayRpc.withHttpSessionSender args : Prog σ SessionEvent _ _ _) := rfl

/-- What the outbound chain of an HTTP service does with a response, where the user has no interceptors
of his own. -/
theorem outbound_eq (args : Args Msg Ctx) :
    ((makeInterceptor [withProtectedCall, withHttpSessionSender format]).call emptyHandler args :
        Prog σ HttpEvent _ _ _) =
      .emit (.send (send format args.rpcMeta args.message)) (.emit .postShutdown
        (.ret { result := .ok (.ready (.value none)), rpcMeta := args.rpcMeta })) := rfl

end Http

/-- A response, as it is handed to the outbound interceptor. -/
structure SentResponse (Msg : Type) where
  rpcMeta : RpcMeta
  message : Msg

namespace SentResponse

variable {Msg : Type}

def event (origin : Option BaseReply) (r : SentResponse Msg) : ServiceEvent Msg :=
  .response origin r.rpcMeta r.message

def failed (r : SentResponse Msg) : Bool := r.rpcMeta.responseInfo.failed

def error (r : SentResponse Msg) : Int32 × String :=
  (r.rpcMeta.responseInfo.errorCode, r.rpcMeta.responseInfo.reason)

def httpResponse (format : HttpFormat Msg) (r : SentResponse Msg) : String :=
  Http.send format r.rpcMeta r.message

/-- One response tells of success and the other one of an error, or they tell of different errors. -/
def Differs (r r' : SentResponse Msg) : Prop :=
  r.failed ≠ r'.failed ∨ (r.failed = true ∧ r'.failed = true ∧ r.error ≠ r'.error)

end SentResponse

/-- `getResult` loses nothing of the body. -/
def HttpFormat.KeepsBody {Msg : Type} (format : HttpFormat Msg) : Prop :=
  ∀ status contentType body body',
    format.getResult { status := status, contentType := contentType, body := body } =
      format.getResult { status := status, contentType := contentType, body := body' } → body = body'

open Prog Pool

section stub

variable {D Msg Ctx U : Type} (code : ServiceCode D Msg Ctx U) {format : HttpFormat Msg}

/-- If it is a response, then it is a reply or an error. -/
def RepliesOrFails (noMessage : Msg) : ServiceEvent Msg → Prop
  | .called .. => True
  | .response _ rpcMeta message => ReplyOrError noMessage rpcMeta message

/-- A reply or an error is all that a request can lead to. -/
theorem keeps_requestStub (s : Server U) (request : RpcMeta) (data : StringView) (context : Ctx) :
    (code.requestStub request data context).Keeps (fun _ => True) (RepliesOrFails code.noMessage) := by
  have herror : ∀ (rpcMeta : RpcMeta) err,
      RepliesOrFails code.noMessage (code.errorEvent rpcMeta err) :=
    fun rpcMeta err => .inr ⟨rfl, _, _, _, _, rfl⟩
  by_cases htype : request.type = .request
  · rw [requestStub_eq code htype]
    cases code.findHandler request with
    | error what =>
        exact guarantees_reportError code (fun _ _ _ => trivial) (herror request what)
    | ok method =>
        apply Guarantees.bind
        · exact keeps_methodStub code (fun _ _ _ => trivial) (fun _ _ _ _ _ h => h) method request data
            context
        · intro reply
          -- what is looked at afterwards can only add an error reply
          have hafter : (code.afterHandler reply).Guarantees (fun _ => True) userDrift
              (RepliesOrFails code.noMessage) :=
            guarantees_afterHandler code (s := s) (fun _ _ _ err => herror reply.rpcMeta err) trivial
          exact hafter.imp fun _ _ _ => trivial
  · unfold ServiceCode.requestStub
    rw [if_pos htype]
    trivial

/-- An error has no message of its own. -/
theorem message_of_failed {noMessage : Msg} {r : SentResponse Msg}
    (hr : ReplyOrError noMessage r.rpcMeta r.message) (hfailed : r.failed = true) :
    r.message = noMessage := by
  rcases hr with ⟨m, hm⟩ | ⟨hmessage, -⟩
  · rw [SentResponse.failed, hm] at hfailed
    cases hfailed
  · exact hmessage

theorem httpResponse_eq_iff (hbody : format.KeepsBody) {r r' : SentResponse Msg} :
    r.httpResponse format = r'.httpResponse format ↔
      format.messageToJsonString r.message = format.messageToJsonString r'.message := by
  constructor
  · exact hbody _ _ _ _
  · intro h
    simp only [SentResponse.httpResponse, Http.send, h]

end stub

def plainFormat {Msg : Type} (json : Msg → String) : HttpFormat Msg where
  messageToJsonString := json
  getResult r := "HTTP/1.1 " ++ toString r.status ++ " OK\r\nContent-Length: " ++
    toString r.body.utf8ByteSize ++ "\r\nContent-Type: " ++ r.contentType ++ "\r\n\r\n" ++ r.body

theorem keepsBody_plainFormat {Msg : Type} (json : Msg → String) : (plainFormat json).KeepsBody := by
  -- the digits of the length end where the line does
  have hline : ∀ (n : ℕ) rest, ((toString n).toList ++ ("\r\nContent-Type: ".toList ++ rest)).dropWhile
      Char.isDigit = "\r\nContent-Type: ".toList ++ rest := by
    intro n rest
    have hdigits : ∀ c ∈ (toString n).toList, c.isDigit = true := by
      intro c hc
      exact Nat.isDigit_of_mem_toDigits (by decide) (Nat.le_refl 10) (by simpa [toString, Nat.repr] using hc)
    rw [List.dropWhile_append_of_pos hdigits]
    rfl
  intro status contentType body body' h
  have h := congrArg String.toList h
  simp only [plainFormat, String.toList_append, List.append_assoc, List.append_cancel_left_eq] at h
  have hrest := congrArg (List.dropWhile Char.isDigit) h
  rw [hline, hline] at hrest
  simp only [List.append_cancel_left_eq] at hrest
  exact String.toList_injective hrest

def greeter : ServiceCode Unit Bool Unit Unit where
  codec :=
    { parseFromArray := fun _ _ _ => some true
      jsonStringToMessage := fun _ _ => .ok true
      serializeAsString := fun _ => []
      typeName := fun _ => "" }
  inboundInterceptor := makeInterceptor []
  outboundInterceptor := makeInterceptor []
  serviceHandlerMapById := ∅
  serviceHandlerMapByStr := Finmap.singleton "Greeter.Greet"
    { type := (), run := fun _ context => .ask (.reply true context) .ret }
  emptyContext := ()
  noMessage := false

def httpRequest (name : String) : RpcMeta :=
  { encoding := .json, request := some { strMethod := name, expectResponse := true } }

def greeterRefusal (name : String) : SentResponse Bool :=
  ⟨errorMeta 0 0 0 ("not found handle, method:" ++ name), false⟩

def greeterObject : BaseReply := ⟨0, httpRequest "Greeter.Greet", true⟩

def greeting : SentResponse Bool := ⟨replyMeta (httpRequest "Greeter.Greet"), true⟩

/-- A method that nobody has is answered by an error. -/
theorem greeter_refuses (name : String)
    (h : greeter.findHandler (httpRequest name) = .error ("not found handle, method:" ++ name)) :
    ∃ b, Run (World.drifting userDrift)
      ⟨{ promises := { user := () } }, [greeter.requestStub (httpRequest name) (Http.bodyView []) ()]⟩
      [(greeterRefusal name).event none] b := by
  have hstub := requestStub_eq greeter (show (httpRequest name).type = .request from rfl) (Http.bodyView []) ()
  rw [h] at hstub
  rw [hstub]
  exact ⟨_, .single (.emit [] [] _ trivial)⟩

/-- The one it has is answered by a greeting. -/
theorem greeter_greets : ∃ b, Run (World.drifting userDrift)
    ⟨{ promises := { user := () } },
      [greeter.requestStub (httpRequest "Greeter.Greet") (Http.bodyView []) ()]⟩
    [.called greeterObject (.reply true ()) true, greeting.event (some greeterObject)] b := by
  have h1 : Run (World.drifting userDrift) ⟨{ promises := { user := () } },
      [greeter.requestStub (httpRequest "Greeter.Greet") (Http.bodyView []) ()]⟩ [] _ :=
    .single (.act [] [] rfl trivial)
  have h2 := h1.tail (.act [] [] rfl trivial)
  have h3 := h2.tail (.emit [] [] _ trivial)
  exact ⟨_, h3.tail (.emit [] [] _ trivial)⟩

section tells

variable {D Msg Ctx U : Type} (code : ServiceCode D Msg Ctx U) {format : HttpFormat Msg}

/-- Of any two responses to requests, the HTTP caller can tell that they differ just when they are not two
errors, and what there is of a success is not printed like an empty `RpcMeta`. -/
theorem httpResponse_tells_iff (hbody : format.KeepsBody) {request request' : RpcMeta}
    {data data' : StringView} {context context' : Ctx} {s s' : Server U}
    {es es' : List (ServiceEvent Msg)} {b b' : Pool (Server U) (ServiceEvent Msg) Empty (Except Exn Unit)}
    (hrun : Run (World.drifting userDrift) ⟨s, [code.requestStub request data context]⟩ es b)
    (hrun' : Run (World.drifting userDrift) ⟨s', [code.requestStub request' data' context']⟩ es' b')
    {origin origin' : Option BaseReply} {r r' : SentResponse Msg} (hr : r.event origin ∈ es)
    (hr' : r'.event origin' ∈ es') :
    (r.Differs r' → r.httpResponse format ≠ r'.httpResponse format) ↔
      (r.failed = true → r'.failed = true → r.error = r'.error) ∧
        (r.failed = false → r'.failed = true →
          format.messageToJsonString r.message ≠ format.messageToJsonString code.noMessage) ∧
        (r.failed = true → r'.failed = false →
          format.messageToJsonString r'.message ≠ format.messageToJsonString code.noMessage) := by
  have hmade := message_of_failed (hrun.shows (keeps_requestStub code s request data context) _ hr)
  have hmade' := message_of_failed (hrun'.shows (keeps_requestStub code s' request' data' context') _ hr')
  rw [ne_eq, httpResponse_eq_iff hbody]
  constructor
  · intro h
    refine ⟨fun hf hf' => ?_, fun hf hf' => ?_, fun hf hf' => ?_⟩
    -- two failures that differ have the same body
    · by_contra herror
      refine h (.inr ⟨hf, hf', herror⟩) ?_
      rw [hmade hf, hmade' hf']
    · rw [← hmade' hf']
      exact h (.inl (by simp [hf, hf']))
    · rw [← hmade hf]
      exact fun hjson => h (.inl (by simp [hf, hf'])) hjson.symm
  · rintro ⟨hboth, hleft, hright⟩ (hdiff | ⟨hf, hf', herror⟩)
    -- one of the two has failed, and its body is that of no message
    · cases hf : r.failed with
      | false =>
          have hf' : r'.failed = true := by simpa [hf] using hdiff
          rw [hmade' hf']
          exact hleft hf hf'
      | true =>
          have hf' : r'.failed = false := by simpa [hf] using hdiff
          rw [hmade hf]
          exact fun hjson => hright hf hf' hjson.symm
    · exact absurd (hboth hf hf') herror

end tells

/-- A greeting is not taken for an error. -/
theorem httpResponse_tells_iff_example : ∃ es es' b b' origin origin',
    Run (World.drifting userDrift) ⟨{ promises := { user := () } },
        [greeter.requestStub (httpRequest "Greeter.Greet") (Http.bodyView []) ()]⟩ es b ∧
      Run (World.drifting userDrift) ⟨{ promises := { user := () } },
        [greeter.requestStub (httpRequest "Leave") (Http.bodyView []) ()]⟩ es' b' ∧
      ∃ r r' : SentResponse Bool, r.event origin ∈ es ∧ r'.event origin' ∈ es' ∧ r.Differs r' ∧
        r.httpResponse (plainFormat fun greeting => if greeting then "\"hi\"" else "") ≠
          r'.httpResponse (plainFormat fun greeting => if greeting then "\"hi\"" else "") := by
  obtain ⟨b, hrun⟩ := greeter_greets
  obtain ⟨b', hrun'⟩ := greeter_refuses "Leave" rfl
  have hr : greeting.event (some greeterObject) ∈
      [.called greeterObject (.reply true ()) true, greeting.event (some greeterObject)] := by simp
  have hr' : (greeterRefusal "Leave").event none ∈ [(greeterRefusal "Leave").event none] :=
    List.mem_singleton.mpr rfl
  have hdiffers : greeting.Differs (greeterRefusal "Leave") := .inl (by decide)
  refine ⟨_, _, b, b', _, _, hrun, hrun', _, _, hr, hr', hdiffers, ?_⟩
  apply (httpResponse_tells_iff greeter (keepsBody_plainFormat _) hrun hrun' hr hr').mpr _ hdiffers
  refine ⟨?_, ?_, ?_⟩ <;> decide

/-- Whichever method it was that nobody has, the same is sent. -/
theorem unknown_methods_look_alike : ∃ es es' b b',
    Run (World.drifting userDrift) ⟨{ promises := { user := () } },
        [greeter.requestStub (httpRequest "Stay") (Http.bodyView []) ()]⟩ es b ∧
      Run (World.drifting userDrift) ⟨{ promises := { user := () } },
        [greeter.requestStub (httpRequest "Leave") (Http.bodyView []) ()]⟩ es' b' ∧
      ∃ r r' : SentResponse Bool, r.event none ∈ es ∧ r'.event none ∈ es' ∧ r.Differs r' ∧
        ∀ format : HttpFormat Bool, r.httpResponse format = r'.httpResponse format := by
  obtain ⟨b, hrun⟩ := greeter_refuses "Stay" rfl
  obtain ⟨b', hrun'⟩ := greeter_refuses "Leave" rfl
  refine ⟨_, _, b, b', hrun, hrun', _, _, List.mem_singleton.mpr rfl, List.mem_singleton.mpr rfl, ?_⟩
  exact ⟨.inr (by decide), fun _ => rfl⟩

end GayRpc
