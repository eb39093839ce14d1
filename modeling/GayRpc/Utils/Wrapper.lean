import GayRpc.Lib.Rounds
import GayRpc.Utils.Interceptor
import Mathlib.Data.List.Forall2

/-!
# Entering a connection

`OnBinaryConnectionEnter` and `OnHTTPConnectionEnter` of `UtilsWrapper.h`, and how often the
outbound interceptor of a service sends a message.

The vector of outbound interceptors is a parameter by value, but the loop over the service creators
appends to it in every round. The first service gets the interceptors of the user and one sender;
every later one gets the senders of the services before it as well (`connectionEnter_getElem`). So a
message of the `i`-th service is sent `i + 1` times, and only the first service obeys the rule of one
send for each message (`sendsOnce_iff`).

What a message causes is read off the trace of its chain. The interceptors of the user show themselves, each
at its position, and call their continuation once, whatever else they do and on whichever thread; a sender
shows what it does to the session. The chain of the `i`-th service shows the interceptors of the user, then
`i + 1` times the events of the sender, and then its handler runs (`chain_emits`).
-/

namespace GayRpc

variable {σ E Msg Ctx Svc M : Type}

/-- `ServiceContext`, without the pointer to the manager all services of a connection share. -/
structure ServiceContext (σ E Msg Ctx : Type) where
  mInInterceptor : UnaryServerInterceptor σ E Msg Ctx
  mOutInterceptor : UnaryServerInterceptor σ E Msg Ctx

abbrev ServiceCreator (σ E Msg Ctx Svc : Type) : Type := ServiceContext σ E Msg Ctx → Except Exn Svc

/-- The loop over the creators, which `OnBinaryConnectionEnter` and `OnHTTPConnectionEnter` share up
to the interceptors `senders` they append in every round. It collects the services with the
contexts they were given; `install` registers a service with the manager. -/
def connectionEnter (install : Svc → M → Except Exn M)
    (senders userInBoundInterceptor : List (UnaryServerInterceptor σ E Msg Ctx)) :
    List (ServiceCreator σ E Msg Ctx Svc) → List (UnaryServerInterceptor σ E Msg Ctx) → M →
      Except Exn (List (ServiceContext σ E Msg Ctx × Svc) × M)
  | [], _, rpcHandlerManager => .ok ([], rpcHandlerManager)
  | serverCreator :: serverCreators, userOutBoundInterceptor, rpcHandlerManager => do
      let inboundInterceptor :=
        if userInBoundInterceptor.isEmpty then makeInterceptor [] else
          makeInterceptor userInBoundInterceptor
      -- the list of the user grows with each creator
      let userOutBoundInterceptor := userOutBoundInterceptor ++ senders
      let serviceContext : ServiceContext σ E Msg Ctx :=
        { mInInterceptor := inboundInterceptor
          mOutInterceptor := makeInterceptor userOutBoundInterceptor }
      let service ← serverCreator serviceContext
      let rpcHandlerManager ← install service rpcHandlerManager
      let (services, rpcHandlerManager) ←
        connectionEnter install senders userInBoundInterceptor serverCreators
          userOutBoundInterceptor rpcHandlerManager
      .ok ((serviceContext, service) :: services, rpcHandlerManager)

def binarySenders : List (UnaryServerInterceptor σ SessionEvent Msg Ctx) := [withSessionBinarySender]

def httpSenders : List (UnaryServerInterceptor σ SessionEvent Msg Ctx) :=
  [withProtectedCall, withHttpSessionSender]

def onBinaryConnectionEnter (install : Svc → M → Except Exn M)
    (serverCreators : List (ServiceCreator σ SessionEvent Msg Ctx Svc))
    (userInBoundInterceptor userOutBoundInterceptor :
      List (UnaryServerInterceptor σ SessionEvent Msg Ctx)) (rpcHandlerManager : M) :
    Except Exn (List (ServiceContext σ SessionEvent Msg Ctx × Svc) × M) :=
  connectionEnter install binarySenders userInBoundInterceptor serverCreators
    userOutBoundInterceptor rpcHandlerManager

def onHTTPConnectionEnter (install : Svc → M → Except Exn M)
    (serverCreators : List (ServiceCreator σ SessionEvent Msg Ctx Svc))
    (userInBoundInterceptor userOutBoundInterceptor :
      List (UnaryServerInterceptor σ SessionEvent Msg Ctx)) (rpcHandlerManager : M) :
    Except Exn (List (ServiceContext σ SessionEvent Msg Ctx × Svc) × M) :=
  connectionEnter install httpSenders userInBoundInterceptor serverCreators
    userOutBoundInterceptor rpcHandlerManager

/-- The outbound chain of the `i`-th service: `i + 1` rounds of the loop have appended to it. -/
theorem connectionEnter_getElem {install : Svc → M → Except Exn M}
    {senders userIn userOut : List (UnaryServerInterceptor σ E Msg Ctx)}
    {creators : List (ServiceCreator σ E Msg Ctx Svc)} {m m' : M}
    {services : List (ServiceContext σ E Msg Ctx × Svc)}
    (h : connectionEnter install senders userIn creators userOut m = .ok (services, m')) {i : ℕ}
    {service : ServiceContext σ E Msg Ctx × Svc} (hi : services[i]? = some service) :
    service.1.mOutInterceptor =
      makeInterceptor (userOut ++ (List.replicate (i + 1) senders).flatten) := by
  induction creators generalizing userOut m services i with
  | nil =>
      obtain ⟨rfl, -⟩ := Prod.mk.inj (Except.ok.inj h)
      simp at hi
  | cons creator creators ih =>
      simp only [connectionEnter, bind, Except.bind] at h
      split at h
      · cases h
      · split at h
        · cases h
        · split at h
          · cases h
          · next rest hrest =>
            obtain ⟨services', m''⟩ := rest
            obtain ⟨rfl, rfl⟩ := Prod.mk.inj (Except.ok.inj h)
            cases i with
            | zero =>
                obtain rfl := Option.some.inj hi
                simp
            | succ i =>
                -- each creator adds the senders once more to the list that the next one starts from
                have hcount : List.replicate (i + 2) senders = senders :: List.replicate (i + 1) senders :=
                  List.replicate_succ
                rw [ih hrest hi, hcount, List.flatten_cons, List.append_assoc]

/-! ## One send for each message -/

section SendsOnce

open Prog

/-- An interceptor of the user that calls its continuation exactly once, on whichever thread. It has
no access to the session. -/
def InvokesOnce (userInterceptor : UnaryServerInterceptor σ Empty Msg Ctx) : Prop :=
  ∀ args, Emits [none] (userInterceptor args)

/-- The `j`-th interceptor of the user, made to show that a message has come to it. -/
def observed (userInterceptor : UnaryServerInterceptor σ Empty Msg Ctx) (j : ℕ) :
    UnaryServerInterceptor σ SessionEvent Msg Ctx := fun args =>
  .emit (.seen j) ((userInterceptor args).lift id fun _ s => s)

/-- The configured list of interceptors, each showing its own position. -/
def observedAll (userInterceptors : List (UnaryServerInterceptor σ Empty Msg Ctx)) :
    List (UnaryServerInterceptor σ SessionEvent Msg Ctx) := userInterceptors.mapIdx fun j x => observed x j

/-- A message handed to the interceptor in state `s` is seen once by each of the `n` interceptors of
the user, in order, and after that causes `sends`: so it is whenever all threads working on it have
ended, whatever the rest of the program does to the state meanwhile. -/
def SendsOnce (outboundInterceptor : UnaryServerInterceptor σ SessionEvent Msg Ctx) (n : ℕ)
    (sends : List SessionEvent) (args : Args Msg Ctx) (s : σ) : Prop :=
  ∀ es b, Pool.Run World.interfering ⟨s, [outboundInterceptor.call emptyHandler args]⟩ es b →
    (∀ p ∈ b.threads, p.Done) → es = (List.range n).map SessionEvent.seen ++ sends

theorem observed_emits {x : UnaryServerInterceptor σ Empty Msg Ctx} (h : InvokesOnce x) (j : ℕ)
    (args : Args Msg Ctx) : Emits ([SessionEvent.seen j].map some ++ [none]) (observed x j args) :=
  .emit _ (Emits.lift (n := 1) (fun s => ⟨s, rfl⟩) (h args))

/-- What a message causes when the chain of the user is followed by `n` rounds of senders. -/
theorem chain_emits {userOut : List (UnaryServerInterceptor σ Empty Msg Ctx)}
    {senders : List (UnaryServerInterceptor σ SessionEvent Msg Ctx)} {sends : List (List SessionEvent)}
    (hout : ∀ x ∈ userOut, InvokesOnce x)
    (hsenders : List.Forall₂ (fun x es => ∀ args, Emits (es.map some ++ [none]) (x args)) senders sends)
    (n : ℕ) (args : Args Msg Ctx) :
    Emits (((List.range userOut.length).map SessionEvent.seen ++
        (List.replicate n sends.flatten).flatten).map some)
      ((makeInterceptor (observedAll userOut ++ (List.replicate n senders).flatten)).call emptyHandler
        args) := by
  have husers : List.Forall₂ (fun x es => ∀ args, Emits (es.map some ++ [none]) (x args))
      (observedAll userOut) ((List.range userOut.length).map fun j => [SessionEvent.seen j]) := by
    refine List.forall₂_iff_get.mpr ⟨by simp [observedAll], fun j hj _ args => ?_⟩
    have hj' : j < userOut.length := by simpa [observedAll] using hj
    simpa [observedAll] using observed_emits (hout _ (List.getElem_mem hj')) j args
  -- every copy of the senders gives the events of one sending
  have hrounds : List.Forall₂ (fun x es => ∀ args, Emits (es.map some ++ [none]) (x args))
      (List.replicate n senders).flatten (List.replicate n sends).flatten := by
    refine List.rel_flatten ?_
    induction n with
    | zero => exact .nil
    | succ n ih => exact .cons hsenders ih
  have hchain := UnaryServerInterceptor.call_emits
    (makeInterceptor_emits (List.rel_append husers hrounds) args)
  have hflat : (((List.range userOut.length).map fun j => [SessionEvent.seen j]) ++
      (List.replicate n sends).flatten).flatten =
      (List.range userOut.length).map SessionEvent.seen ++ (List.replicate n sends.flatten).flatten := by
    rw [List.flatten_append, List.flatten_flatten, List.map_replicate]
    rw [← List.flatMap_def, ← List.map_eq_flatMap]
  rwa [hflat] at hchain

/-- A chain with a determined trace obeys the rule when that trace is the one the rule demands. -/
theorem sendsOnce_iff_eq {x : UnaryServerInterceptor σ SessionEvent Msg Ctx} {n : ℕ}
    {sends es : List SessionEvent} {args : Args Msg Ctx}
    (h : Emits (es.map some) (x.call emptyHandler args)) (s : σ) :
    SendsOnce x n sends args s ↔ es = (List.range n).map SessionEvent.seen ++ sends :=
  Pool.emits_done_iff h s fun es => es = (List.range n).map SessionEvent.seen ++ sends

/-- The `i`-th service of a connection obeys the rule when it is the first one. -/
theorem sendsOnce_service_iff {install : Svc → M → Except Exn M}
    {senders userIn : List (UnaryServerInterceptor σ SessionEvent Msg Ctx)}
    {sends : List (List SessionEvent)}
    {userOut : List (UnaryServerInterceptor σ Empty Msg Ctx)}
    {creators : List (ServiceCreator σ SessionEvent Msg Ctx Svc)} {m m' : M}
    {services : List (ServiceContext σ SessionEvent Msg Ctx × Svc)}
    (hout : ∀ x ∈ userOut, InvokesOnce x)
    (hsenders : List.Forall₂ (fun x es => ∀ args, Emits (es.map some ++ [none]) (x args)) senders sends)
    (hne : sends.flatten ≠ [])
    (h : connectionEnter install senders userIn creators (observedAll userOut) m =
      .ok (services, m')) {i : ℕ} {service : ServiceContext σ SessionEvent Msg Ctx × Svc}
    (hi : services[i]? = some service) (args : Args Msg Ctx) (s : σ) :
    SendsOnce service.1.mOutInterceptor userOut.length sends.flatten args s ↔ i = 0 := by
  rw [connectionEnter_getElem h hi, sendsOnce_iff_eq (chain_emits hout hsenders (i + 1) args) s]
  constructor
  · intro heq
    have hlen := congrArg List.length (List.append_cancel_left heq)
    have hpos : 0 < sends.flatten.length := List.length_pos_of_ne_nil hne
    have hmul : (i + 1) * sends.flatten.length = 1 * sends.flatten.length := by simpa using hlen
    have := Nat.eq_of_mul_eq_mul_right hpos hmul
    omega
  · rintro rfl
    simp

theorem binarySenders_emits : List.Forall₂
    (fun x es => ∀ args : Args Msg Ctx, Emits (es.map some ++ [none]) (x args))
    (binarySenders (σ := σ)) [[.binarySend]] :=
  .cons withSessionBinarySender_emits .nil

theorem httpSenders_emits : List.Forall₂
    (fun x es => ∀ args : Args Msg Ctx, Emits (es.map some ++ [none]) (x args))
    (httpSenders (σ := σ)) [[], [.httpSend, .postShutdown]] :=
  .cons withProtectedCall_emits (.cons withHttpSessionSender_emits .nil)

/-- Two services whose creators always succeed, on a manager that lets everything be installed. -/
def twoCreators : List (ServiceCreator Unit SessionEvent Unit Unit Unit) :=
  [fun _ => .ok (), fun _ => .ok ()]

end SendsOnce

end GayRpc
