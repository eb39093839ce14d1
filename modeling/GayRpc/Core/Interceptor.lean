import GayRpc.Core.Error
import GayRpc.Core.Meta
import GayRpc.Lib.Trace
import GayRpc.Lib.Wraps

/-!
# Interceptors

`GayRpcType.h` and `GayRpcInterceptor.h`. An interceptor is the program it runs for one message: its
questions are the calls of the continuation `next` it was given, the answers are what those calls
came back with. Called on another thread, `next` is asked by a thread the program starts.

`RpcMeta&&` is a reference to an object of the caller, who may look at it again after the call. So
the meta goes in with the arguments and comes out with the reply; a callee that moved it away
leaves a default `RpcMeta` behind.

`makeInterceptor` goes from the last interceptor of the list to the first, and each round wraps the
combination there is so far:

    combination ← wrapper x combination

The continuation that `wrapper` hands to `x` passes on the `next` it has captured by `std::move`. Whether
that leaves it empty depends on what is below: another wrapper moves it into its own continuation, the
innermost combination calls it where it is. `Combination` therefore has two parts besides the program, one
that it is told (whether `next` still holds something) and one that it tells (whether a call takes it).
-/

namespace GayRpc

/-- What an interceptor or a handler is called with. -/
structure Args (Msg Ctx : Type) where
  rpcMeta : RpcMeta
  message : Msg
  context : Ctx

/-- The two ways a future comes to its end: the value is the error text, if there is one. -/
inductive Outcome where
  | value (err : Option String)
  | exception (e : Exn)

/-- `InterceptorReturnType`. A future that is not ready yet is known by the number of its promise. -/
inductive Future where
  | ready (o : Outcome)
  | pending (promise : ℕ)

/-- What a call leaves its caller with: the future or an exception, and the meta it was passed. -/
structure Reply where
  result : Except Exn Future
  rpcMeta : RpcMeta

/-- A reply of the chain, its future left to itself. -/
def Reply.thrown (reply : Reply) : Except Exn Unit :=
  reply.result.map fun _ => ()

abbrev UnaryServerInterceptor (σ E Msg Ctx : Type) : Type :=
  Args Msg Ctx → Prog σ E (Args Msg Ctx) Reply Reply

/-- `UnaryHandler`: the end of a chain, which calls nobody. -/
abbrev UnaryHandler (σ E Msg Ctx : Type) : Type :=
  Args Msg Ctx → Prog σ E Empty Empty Reply

variable {σ E Msg Ctx : Type}

/-- The handler that `BaseClient::call` and `BaseReply` put at the end of the outbound chain. -/
def emptyHandler : UnaryHandler σ E Msg Ctx := fun args =>
  .ret { result := .ok (.ready (.value none)), rpcMeta := args.rpcMeta }

/-- Call an interceptor with `next` at the end. -/
def UnaryServerInterceptor.call (i : UnaryServerInterceptor σ E Msg Ctx)
    (next : UnaryHandler σ E Msg Ctx) : UnaryHandler σ E Msg Ctx := fun args =>
  (i args).plug (fun _ => next) id ()

/-- `combinationInterceptor` on its way through the loop of `makeInterceptor`. `run` gets to know
whether the `std::function` passed as `next` still holds something; `takesNext` says whether a call
moves it out. -/
structure Combination (σ E Msg Ctx : Type) where
  run : Bool → UnaryServerInterceptor σ E Msg Ctx
  takesNext : Bool

/-- The combination the loop starts with: it calls `next` where it is. -/
def Combination.direct : Combination σ E Msg Ctx where
  run full args :=
    if full then .ask args .ret
    else .ret { result := .error .badFunctionCall, rpcMeta := args.rpcMeta }
  takesNext := false

/-- `wrapper`. The continuation handed to `userInterceptor` owns `next`, and passes it on by
`std::move` whenever it is called. -/
def Combination.wrapper (userInterceptor : UnaryServerInterceptor σ E Msg Ctx)
    (nextInterceptor : Combination σ E Msg Ctx) : Combination σ E Msg Ctx where
  run full args :=
    (userInterceptor args).plug nextInterceptor.run (fun full => full && !nextInterceptor.takesNext)
      full
  takesNext := true

/-- `makeInterceptor`: the loop goes from the last interceptor to the first. -/
def makeInterceptor (userInterceptors : List (UnaryServerInterceptor σ E Msg Ctx)) :
    UnaryServerInterceptor σ E Msg Ctx :=
  (userInterceptors.foldr Combination.wrapper Combination.direct).run true

open Prog

/-- Interceptors that each show something and then call their continuation once show it one after
the other, and the chain calls its continuation once. -/
theorem makeInterceptor_emits {xs : List (UnaryServerInterceptor σ E Msg Ctx)} {ess : List (List E)}
    (h : List.Forall₂ (fun x es => ∀ args, Emits (es.map some ++ [none]) (x args)) xs ess)
    (args : Args Msg Ctx) : Emits (ess.flatten.map some ++ [none]) (makeInterceptor xs args) := by
  unfold makeInterceptor
  induction h generalizing args with
  | nil => exact .ask args fun r => .ret r
  | @cons x es xs ess hx _ ih =>
      rw [List.flatten_cons, List.map_append, List.append_assoc]
      exact Emits.plug ih (hx args)

/-- The whole trace of a message that goes through an interceptor which calls its continuation at
the end. -/
theorem UnaryServerInterceptor.call_emits {i : UnaryServerInterceptor σ E Msg Ctx} {es : List E}
    {args : Args Msg Ctx} (h : Emits (es.map some ++ [none]) (i args)) :
    Emits (es.map some) (i.call emptyHandler args) := by
  have hend : ∀ args : Args Msg Ctx, Emits [] (emptyHandler args : Prog σ E Empty Empty Reply) :=
    fun _ => .ret _
  rw [← List.append_nil (es.map some)]
  exact Emits.plug hend h

/-- The interceptor calls its continuation once, with what it was called with, and comes back with what
that comes back with. What it does besides are sections in `own`. -/
def PassesThrough (own : (σ → Option σ) → Prop) (x : UnaryServerInterceptor σ E Msg Ctx) : Prop :=
  ∀ args, Wraps own (ask args ret) (x args)

/-- Interceptors that pass a message through put nothing but their own sections around the rest of the
chain. -/
theorem Combination.foldr_wraps {own : (σ → Option σ) → Prop}
    {xs : List (UnaryServerInterceptor σ E Msg Ctx)} (h : ∀ x ∈ xs, PassesThrough own x)
    (c : Combination σ E Msg Ctx) (args : Args Msg Ctx) :
    Wraps own (c.run true args) ((xs.foldr Combination.wrapper c).run true args) := by
  induction xs with
  | nil => exact .refl
  | cons x xs ih =>
      obtain ⟨hx, hxs⟩ := List.forall_mem_cons.mp h
      -- the continuation of `x` still holds the rest of the chain, since `x` has not called it before
      exact (ih hxs).trans (hx args).plug

theorem makeInterceptor_passes {own : (σ → Option σ) → Prop}
    {xs : List (UnaryServerInterceptor σ E Msg Ctx)} (h : ∀ x ∈ xs, PassesThrough own x) :
    PassesThrough own (makeInterceptor xs) := fun args =>
  Combination.foldr_wraps h .direct args

end GayRpc
