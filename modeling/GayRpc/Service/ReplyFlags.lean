import GayRpc.Core.Service
import GayRpc.Lib.Duty

/-!
# No reply object is forgotten

Where every method calls its reply object on every path, sooner or later and on whatever thread, the flag
of a reply object that was made is set when all threads are done.

That is a duty: the reply object is in the hands of the thread that has made it, then of the method, then of
whichever thread of the method calls it, and setting the flag settles it. The stub and the interceptors
around the method have nothing to do with it, and neither has the sending of a response.
-/

namespace GayRpc

open Prog

section flags

variable {D Msg Ctx U : Type} {code : ServiceCode D Msg Ctx U} {n : ℕ} {o : Prop}

/-- The reply object `n` is to be called, once it is made. -/
def flagDuty (n : ℕ) : Duty (Server U) (ServiceEvent Msg) where
  inv _ := True
  bound _ := True
  safe s := s.replies ≤ n ∨ s.mReplyFlag n = true
  settles _ := False

/-- Sending has nothing to do with the flags. -/
theorem flagDuty_sendResponse (outbound : UnaryServerInterceptor U Empty Msg Ctx)
    (origin : Option BaseReply) (rpcMeta : RpcMeta) (m : Msg) (context : Ctx) :
    Discharges (flagDuty n) False (sendResponse outbound origin rpcMeta m context) := by
  refine ⟨False, False.elim, Discharges.bind (Discharges.lift ?_ ?_) fun _ => id⟩
  · exact fun _ _ _ => trivial
  · exact fun _ _ hs => hs

/-- A call on the reply object sets its flag, if nobody has set it before. -/
theorem flagDuty_answer (object : BaseReply) (call : ReplyCall Msg Unit)
    {send : ServerProg U Msg (Except Exn Unit)} (hsend : Discharges (flagDuty n) False send) :
    Discharges (flagDuty n) (object.number = n) (object.answer call send) := by
  intro s s' _ _ hs
  obtain rfl := Option.some.inj hs
  refine ⟨trivial, False, fun ho => .inl ?_, ?_⟩
  · rcases ho with rfl | hle | hset
    · exact .inr (by simp [Server.setFlag])
    · exact .inl hle
    · exact .inr (by simp [Server.setFlag, hset])
  · refine ⟨False, False.elim, ?_⟩
    split
    · exact id
    · split
      · exact id
      · split
        · exact hsend
        · exact id

theorem flagDuty_run (object : BaseReply) (outbound : UnaryServerInterceptor U Empty Msg Ctx)
    (noMessage : Msg) (call : ReplyCall Msg Ctx) :
    Discharges (flagDuty n) (object.number = n) (object.run outbound noMessage call) := by
  cases call with
  | reply response context => exact flagDuty_answer object _ (flagDuty_sendResponse ..)
  | error errorCode reason context => exact flagDuty_answer object _ (flagDuty_sendResponse ..)

/-- The method gets the reply object, and whoever it is on the method's side that calls it takes the duty
over. -/
theorem flagDuty_methodHandler {method : ServiceMethod D Msg Ctx U} {args : Args Msg Ctx}
    (hasks : (method.run args.message args.context).Asks) (first : Bool) :
    Discharges (flagDuty n) False (code.methodHandler method first args) := by
  intro s s' _ _ hs
  obtain rfl := Option.some.inj hs
  refine ⟨trivial, s.replies = n, fun ho => ?_, ?_⟩
  · rcases ho.resolve_left id with hle | hset
    · -- the object made here may be the one the duty is about
      by_cases heq : s.replies = n
      · exact .inr heq
      · exact .inl (.inl (Nat.lt_of_le_of_ne hle heq))
    · exact .inl (.inr hset)
  · apply Discharges.bind
    · refine Discharges.lift_plug_asks ?_ ?_ (fun _ call => ?_) fun _ => hasks
      · exact fun _ _ _ => trivial
      · exact fun _ _ h => h
      · exact flagDuty_run ⟨s.replies, args.rpcMeta, first⟩ _ _ call
    · intro r
      cases r with
      | ok _ => exact id
      | error _ => exact id

theorem flagDuty_reportError (rpcMeta : RpcMeta) (err : String) :
    Discharges (flagDuty n) False (code.reportError rpcMeta err) :=
  flagDuty_sendResponse ..

theorem flagDuty_reportOutcome (rpcMeta : RpcMeta) (o : Outcome) :
    Discharges (flagDuty n) False (code.reportOutcome rpcMeta o) := by
  unfold ServiceCode.reportOutcome
  split
  · exact id
  · exact flagDuty_reportError _ _
  · split
    · exact id
    · exact flagDuty_reportError _ _

theorem flagDuty_afterHandler (reply : Reply) :
    Discharges (flagDuty n) False (code.afterHandler reply) := by
  obtain ⟨result, rpcMeta⟩ := reply
  rcases result with e | o | promise
  · exact id
  · exact flagDuty_reportOutcome rpcMeta o
  · intro s s' _ _ hs
    obtain rfl := Option.some.inj hs
    refine ⟨trivial, False, fun ho => .inl (ho.resolve_left id), ?_⟩
    show Discharges _ _ (code.reportPromise rpcMeta promise (s.promises.fulfilled promise))
    cases s.promises.fulfilled promise with
    | some o => exact flagDuty_reportOutcome rpcMeta o
    | none =>
        -- somebody waits for the promise
        refine ⟨False, False, False.elim, fun s₁ s₁' _ _ hs₁ => ?_, id⟩
        obtain ⟨-, hs₁⟩ := Option.ite_none_right_eq_some.mp hs₁
        obtain rfl := Option.some.inj hs₁
        refine ⟨trivial, False, fun ho => .inl (ho.resolve_left id), ?_⟩
        dsimp only
        split
        · exact flagDuty_reportError _ _
        · exact id

/-- Every method of the service calls its reply object. -/
def ServiceCode.Answers (code : ServiceCode D Msg Ctx U) : Prop :=
  ∀ rpcMeta method, code.findHandler rpcMeta = .ok method →
    ∀ message context, (method.run message context).Asks

/-- No request makes a reply object that is forgotten. -/
theorem flagDuty_requestStub (hanswers : code.Answers) (rpcMeta : RpcMeta) (data : StringView)
    (context : Ctx) : Discharges (flagDuty n) False (code.requestStub rpcMeta data context) := by
  unfold ServiceCode.requestStub
  split
  · exact id
  · split
    · exact flagDuty_reportError _ _
    · next method hfound =>
      refine Discharges.bind ?_ flagDuty_afterHandler
      unfold ServiceCode.methodStub parseRequestWrapper
      split
      · exact id
      · refine Discharges.lift_plug ?_ ?_ fun first args => ?_
        · exact fun _ _ _ => trivial
        · exact fun _ _ h => h
        · exact flagDuty_methodHandler (hanswers _ _ hfound _ _) first

end flags

end GayRpc
