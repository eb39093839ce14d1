import GayRpc.Http.Dispatch
import GayRpc.Lib.Endings

/-!
# What an HTTP request throws

Nothing between the HTTP server and the service catches what the dispatch of a request throws: not the
slicing of the path, not the table, not the parser, and not the error that is sent back. A binary packet
is dispatched within a `try` (`pbPacketHandle`).

The stub has two ways of sending an error that the inbound chain has come back with. If the future is ready
when the stub asks it, then the error is sent there and then, and an exception of the outbound chain goes
up to the callback. If it is not, then a lambda sends the error later, on behalf of the promise, where it
does no harm. A promise may be fulfilled between the return of the chain and the question of the stub, so
what is asked of a service (`Absorbs`) depends on the state in which the chain has left the promises, and
is asked of all states that may come after it.

`Withstands` is what a service has to do for the callback to return. The proof takes the callback apart
from the outside in, with one equivalence for each function (`alwaysEnds_requestStub_iff`,
`alwaysEnds_afterHandler_iff` and so on); an outbound chain works on the state of the user, which may
change at any time, so how it may end is a matter of its program alone.
-/

namespace GayRpc

open Prog Pool

variable {D Msg Ctx U : Type}

namespace ServiceCode

variable (code : ServiceCode D Msg Ctx U)

/-- The outbound chain, called with the error that is sent back. -/
def errorCall (rpcMeta : RpcMeta) (err : String) : Prog U Empty Empty Empty Reply :=
  code.outboundInterceptor.call emptyHandler
    { rpcMeta := errorMeta rpcMeta.serviceId rpcMeta.requestInfo.sequenceId 0 err
      message := code.noMessage, context := code.emptyContext }

def SendsError (rpcMeta : RpcMeta) (err : String) : Prop :=
  ∀ o, (code.errorCall rpcMeta err).MayEnd o → ∃ reply, o = some reply ∧ reply.thrown = .ok ()

/-- The stub returns from what it does about a future that is ready: what has gone wrong has a text, and can
be sent. -/
def AbsorbsOutcome (rpcMeta : RpcMeta) : Outcome → Prop
  | .value none => True
  | .value (some err) => code.SendsError rpcMeta err
  | .exception e => e ≠ .unknown ∧ code.SendsError rpcMeta e.caughtText

/-- What the inbound chain comes back with lets the stub return: it is no exception, and if the future is
ready, or the promise is fulfilled in the state, then that can be dealt with. -/
def Absorbs (reply : Reply) (s : Server U) : Prop :=
  match reply.result with
  | .error _ => False
  | .ok (.ready o) => code.AbsorbsOutcome reply.rpcMeta o
  | .ok (.pending promise) =>
    ∀ o, s.promises.fulfilled promise = some o → code.AbsorbsOutcome reply.rpcMeta o

def inboundCall (method : ServiceMethod D Msg Ctx U) (args : Args Msg Ctx) : ServerProg U Msg Reply :=
  ((code.inboundInterceptor args).lift Server.promises Server.setPromises).plug (code.methodHandler method)
    (fun _ => false) true

/-- The service lets a JSON request return. An unknown method asks for an error that can be sent; a known
one for a body that can be parsed, and for a chain that lets no exception through. The threads that the
chain has started may go on after it has come back, and so do its ends. -/
def Withstands (rpcMeta : RpcMeta) (data : StringView) (context : Ctx) (s : Server U) : Prop :=
  match code.findHandler rpcMeta with
  | .error what => code.SendsError rpcMeta what
  | .ok method => ∃ request, code.codec.jsonStringToMessage method.type data.bytes = .ok request ∧
      ∀ es o l' s', EndsBeside userDrift []
          (code.inboundCall method { rpcMeta := rpcMeta, message := request, context := context }) s
          es o l' s' →
        ∃ reply, o = some reply ∧ code.Absorbs reply s'

variable {code}

theorem alwaysEnds_reportError_iff {rpcMeta : RpcMeta} {err : String}
    (l : List (ServerProg U Msg (Except Exn Unit))) (s : Server U) :
    AlwaysEnds userDrift l (code.reportError rpcMeta err) s (· = some (.ok ())) ↔
      code.SendsError rpcMeta err := by
  refine alwaysEnds_emit_iff fun l s => ?_
  have hlift : (((code.errorCall rpcMeta err).bind fun reply => ret reply.thrown).lift Server.user
        Server.setUser : ServerProg U Msg (Except Exn Unit)) =
      ((code.errorCall rpcMeta err).lift Server.user Server.setUser).bind fun reply => ret reply.thrown :=
    lift_bind _ _
  show AlwaysEnds userDrift l
    (((code.errorCall rpcMeta err).lift Server.user Server.setUser).bind fun reply => ret reply.thrown) s _ ↔ _
  rw [← hlift, alwaysEnds_lift_iff (fun _ _ => rfl) fun s u => ⟨u, rfl⟩]
  constructor
  · intro h o ho
    cases o with
    | none => cases h none (mayEnd_bind.mpr (.inl ⟨rfl, ho⟩))
    | some reply =>
        -- the report ends in whatever the chain of the error reply has ended in
        have hthrown := h (some reply.thrown) (mayEnd_bind.mpr (.inr ⟨reply, ho, rfl⟩))
        exact ⟨reply, rfl, Option.some.inj hthrown⟩
  · intro h o ho
    obtain ⟨rfl, hnone⟩ | ⟨reply, hreply, hret⟩ := mayEnd_bind.mp ho
    · obtain ⟨reply, heq, -⟩ := h none hnone
      cases heq
    · obtain ⟨reply', heq, hthrown⟩ := h _ hreply
      obtain rfl := Option.some.inj heq
      rw [← hthrown]
      exact hret

theorem alwaysEnds_reportOutcome_iff (rpcMeta : RpcMeta) (o : Outcome)
    (l : List (ServerProg U Msg (Except Exn Unit))) (s : Server U) :
    AlwaysEnds userDrift l (code.reportOutcome rpcMeta o) s (· = some (.ok ())) ↔
      code.AbsorbsOutcome rpcMeta o := by
  rcases o with (_ | err) | e
  · exact alwaysEnds_ret_iff.trans (by simp [AbsorbsOutcome])
  · exact alwaysEnds_reportError_iff l s
  · by_cases he : e = .unknown
    · subst he
      exact alwaysEnds_halt_iff.trans (by simp [AbsorbsOutcome])
    · have hsent : code.reportOutcome rpcMeta (.exception e) = code.reportError rpcMeta e.caughtText :=
        if_neg he
      rw [hsent, alwaysEnds_reportError_iff l s]
      simp [AbsorbsOutcome, he]

/-- Whoever waits for a promise does it on a thread of its own. -/
theorem alwaysEnds_reportPromise_iff (rpcMeta : RpcMeta) (promise : ℕ) (outcome : Option Outcome)
    (l : List (ServerProg U Msg (Except Exn Unit))) (s : Server U) :
    AlwaysEnds userDrift l (code.reportPromise rpcMeta promise outcome) s (· = some (.ok ())) ↔
      ∀ o, outcome = some o → code.AbsorbsOutcome rpcMeta o := by
  cases outcome with
  | some o =>
      refine (alwaysEnds_reportOutcome_iff rpcMeta o l s).trans ?_
      simp
  | none => exact alwaysEnds_fork_iff fun l s => alwaysEnds_ret_iff.trans (by simp)

theorem alwaysEnds_afterHandler_iff (reply : Reply) (l : List (ServerProg U Msg (Except Exn Unit)))
    (s : Server U) :
    AlwaysEnds userDrift l (code.afterHandler reply) s (· = some (.ok ())) ↔
      ∀ es l' s', Beside userDrift l s es l' s' → code.Absorbs reply s' := by
  have hnow : ∀ {K : Prop}, (∀ es l' s', Beside userDrift l s es l' s' → K) ↔ K :=
    ⟨fun h => h [] l s .refl, fun h _ _ _ _ => h⟩
  obtain ⟨result, rpcMeta⟩ := reply
  rcases result with e | o | promise
  · exact alwaysEnds_ret_iff.trans ((by simp : _ ↔ False).trans hnow.symm)
  · exact (alwaysEnds_reportOutcome_iff rpcMeta o l s).trans hnow.symm
  · -- the promise may be fulfilled by the time the stub looks at it
    refine alwaysEnds_act_iff.trans ?_
    constructor
    · intro h es l' s' hbeside
      exact (alwaysEnds_reportPromise_iff rpcMeta promise _ l' s').mp (h es l' s' s' hbeside rfl)
    · intro h es l₁ s₁ s₂ hbeside hs
      obtain rfl := Option.some.inj hs
      exact (alwaysEnds_reportPromise_iff rpcMeta promise _ l₁ s₁).mpr (h es l₁ s₁ hbeside)

/-- The stub returns from a JSON request just when the service withstands it. -/
theorem alwaysEnds_requestStub_iff {rpcMeta : RpcMeta} (htype : rpcMeta.type = .request)
    (hjson : rpcMeta.encoding = .json) (data : StringView) (context : Ctx) (s : Server U) :
    AlwaysEnds userDrift [] (code.requestStub rpcMeta data context) s (· = some (.ok ())) ↔
      code.Withstands rpcMeta data context s := by
  rw [requestStub_eq code htype, Withstands]
  cases code.findHandler rpcMeta with
  | error what => exact alwaysEnds_reportError_iff [] s
  | ok method =>
      dsimp only
      rw [alwaysEnds_bind_iff alwaysEnds_afterHandler_iff]
      unfold methodStub parseRequestWrapper parseMessage
      rw [hjson]
      dsimp only
      cases code.codec.jsonStringToMessage method.type data.bytes with
      | error status =>
          refine iff_of_false (fun h => ?_) (by simp)
          -- a body that does not parse is an exception at once
          exact h [] (some ⟨.error _, rpcMeta⟩) [] s .refl
      | ok request =>
          constructor
          · intro h
            refine ⟨request, rfl, fun es o l' s' hends => ?_⟩
            have hends := h es o l' s' hends
            cases o with
            | none => cases hends
            | some reply => exact ⟨reply, rfl, hends⟩
          · rintro ⟨request', heq, h⟩ es o l' s' hends
            obtain rfl := Except.ok.inj heq
            obtain ⟨reply, rfl, habsorbs⟩ := h es o l' s' hends
            exact habsorbs

end ServiceCode

end GayRpc
