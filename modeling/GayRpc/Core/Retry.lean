import GayRpc.Core.Chain
import GayRpc.Lib.Rounds
import Mathlib.Algebra.Ring.Nat

/-!
# Calling a continuation again

The continuation that an interceptor is given is an object that owns `next`, the handler at the end of
the chain. When it is called it passes `next` down by `std::move`, and keeps it only if nothing but the
final handler is below. It is a `std::function`, so it may be copied, and a copy owns a `next` of its own
if the object did at that time.

Here one interceptor of a chain uses its continuation as it likes: it may copy it, call it and call the
copies, as often as it decides while it runs, on any thread and at any time. The other interceptors call
their continuation once. How often the first one has called is read off the run. What should come of it is
`Repeats`: for each of its calls everything below it runs once, in the order of the chain, and no exception
comes out of a continuation. That is so if the interceptor is the last one of the chain, or if each object
that it calls still owns `next`, and not otherwise (`retries_iff`): the call of an object that has passed
`next` on runs the interceptors below, but ends with a `bad_function_call` in front of the handler.
-/

namespace GayRpc

open Prog Pool

variable {σ Msg Ctx : Type}

def Reply.Threw (reply : Reply) : Prop := ∃ e, reply.result = .error e

/-! ## Objects that hold a continuation -/

/-- What an interceptor may do with the objects that hold its continuation. -/
inductive ContinuationUse (Msg Ctx : Type) where
  | call (object : ℕ) (args : Args Msg Ctx)
  | copy (object : ℕ)

/-- What it gets: the reply to a call, the object that is a copy. -/
inductive ContinuationAnswer where
  | replied (reply : Reply)
  | copied (object : ℕ)

def ContinuationAnswer.Threw : ContinuationAnswer → Prop
  | replied reply => reply.Threw
  | copied _ => False

/-- An interceptor that gets to know which object holds the continuation it is given. -/
abbrev RetryingInterceptor (σ Msg Ctx : Type) : Type :=
  ℕ → Args Msg Ctx → Prog σ Empty (ContinuationUse Msg Ctx) ContinuationAnswer Reply

/-- The state, and the objects that hold the continuation of the interceptor, in the order in which they
were made: whether they own a `next`. -/
structure Objects (σ : Type) where
  user : σ
  owns : List Bool

namespace Objects

def setUser (s : Objects σ) (user : σ) : Objects σ := { s with user := user }

def add (s : Objects σ) (full : Bool) : Objects σ := { s with owns := s.owns ++ [full] }

def empty (s : Objects σ) (object : ℕ) : Objects σ := { s with owns := s.owns.set object false }

/-- Others may change the state, but not the objects. -/
def Drifts (s s' : Objects σ) : Prop := s'.owns = s.owns

@[simp]
theorem user_setUser (s : Objects σ) (user : σ) : (s.setUser user).user = user := rfl

theorem drifts_setUser (s : Objects σ) (user : σ) : Drifts s (s.setUser user) := rfl

end Objects

/-! ## The chain -/

/-- What is seen of a chain that is called. -/
inductive ChainEvent where
  /-- the interceptor at that position runs, or the handler if no interceptor is there -/
  | runs (position : ℕ)
  /-- an object that holds the continuation is called, and owns a `next` or not -/
  | calls (full : Bool)
  /-- an exception comes out of a continuation -/
  | throws
  deriving DecidableEq

/-- Whoever has called a continuation sees how it ends. -/
def seen {Q A : Type} (reply : Reply) : Prog (Objects σ) ChainEvent Q A Reply :=
  match reply.result with
  | .ok _ => .ret reply
  | .error _ => .emit .throws (.ret reply)

/-- What the objects do that hold the continuation of `wrapper`. -/
def Combination.respond (nextInterceptor : Combination (Objects σ) ChainEvent Msg Ctx) :
    ContinuationUse Msg Ctx →
      Prog (Objects σ) ChainEvent (Args Msg Ctx) Reply ContinuationAnswer
  | .call object args =>
      -- a continuation that moves its `next` out leaves its object empty
      .act (fun s => some (if nextInterceptor.takesNext then s.empty object else s)) fun s =>
        (s.owns[object]?).elim .halt fun full =>
          .emit (.calls full) (((nextInterceptor.run full args).bind seen).bind fun reply =>
            .ret (.replied reply))
  | .copy object =>
      -- a copy owns what the original owns by then
      .act (fun s => some ((s.owns[object]?).elim s s.add)) fun s =>
        (s.owns[object]?).elim .halt fun _ => .ret (.copied s.owns.length)

/-- `wrapper`, for an interceptor that uses the object which holds its continuation as it likes. -/
def Combination.retrying (position : ℕ) (userInterceptor : RetryingInterceptor σ Msg Ctx)
    (nextInterceptor : Combination (Objects σ) ChainEvent Msg Ctx) :
    Combination (Objects σ) ChainEvent Msg Ctx where
  run full args :=
    .act (fun s => some (s.add full)) fun s =>
      .emit (.runs position)
        (((userInterceptor s.owns.length args).lift Objects.user Objects.setUser).plug
          (fun _ => nextInterceptor.respond) id ())
  takesNext := true

/-- Any other interceptor, as it is seen at its position. -/
def seenAt (position : ℕ) (y : UnaryServerInterceptor σ Empty Msg Ctx) :
    UnaryServerInterceptor (Objects σ) ChainEvent Msg Ctx := fun args =>
  .emit (.runs position)
    (((y args).lift Objects.user Objects.setUser).plug (fun _ args => .ask args seen) id ())

/-- Interceptors that follow one another, the first of them at position `j`. -/
def seenFrom : ℕ → List (UnaryServerInterceptor σ Empty Msg Ctx) →
    List (UnaryServerInterceptor (Objects σ) ChainEvent Msg Ctx)
  | _, [] => []
  | j, y :: ys => seenAt j y :: seenFrom (j + 1) ys

/-- The handler at the end of a chain of `n` interceptors. -/
def seenHandler (n : ℕ) (handler : UnaryHandler σ Empty Msg Ctx) :
    UnaryHandler (Objects σ) ChainEvent Msg Ctx := fun args =>
  .emit (.runs n) ((handler args).lift Objects.user Objects.setUser)

/-- What `makeInterceptor` builds of `front`, `x` and `rest`, called with a handler. -/
def retryChain (front : List (UnaryServerInterceptor σ Empty Msg Ctx))
    (x : RetryingInterceptor σ Msg Ctx) (rest : List (UnaryServerInterceptor σ Empty Msg Ctx))
    (handler : UnaryHandler σ Empty Msg Ctx) : UnaryHandler (Objects σ) ChainEvent Msg Ctx :=
  UnaryServerInterceptor.call
    (((seenFrom 0 front).foldr Combination.wrapper (Combination.retrying front.length x
      ((seenFrom (front.length + 1) rest).foldr Combination.wrapper .direct))).run true)
    (seenHandler (front.length + 1 + rest.length) handler)

/-! ## What is asked of the parts -/

/-- As long as no answer is an exception, the program does not end in one. -/
def Calm {Q A : Type} (good : A → Prop) : Prog σ Empty Q A Reply → Prop :=
  Upholds good (fun _ => False) (fun _ => False) fun reply => ¬ reply.Threw

/-- An interceptor that calls its continuation exactly once. -/
structure CallsExactlyOnce (y : UnaryServerInterceptor σ Empty Msg Ctx) : Prop where
  atMostOnce : CallsOnce y
  atLeastOnce : ∀ args, Emits [none] (y args)
  calm : ∀ args, Calm (fun reply => ¬ reply.Threw) (y args)

/-- An interceptor that may call its continuation again. It does not wait for what cannot come. -/
structure CallsAtWill (x : RetryingInterceptor σ Msg Ctx) : Prop where
  wakes : ∀ object args, (x object args).Wakes
  calm : ∀ object args, Calm (fun answer => ¬ answer.Threw) (x object args)

/-- A handler that comes back, and does not throw. -/
structure Completes (handler : UnaryHandler σ Empty Msg Ctx) : Prop where
  ends : ∀ args, Emits [] (handler args)
  calm : ∀ args, Calm (fun _ => True) (handler args)

def ChainEvent.position : ChainEvent → Option ℕ
  | runs position => some position
  | _ => none

def ChainEvent.called : ChainEvent → Option Bool
  | calls full => some full
  | _ => none

/-- What is seen of a chain of `n` interceptors, the one at position `i` calling its continuation as often as
it likes: everything below it runs once for each of its calls, the handler last, each time in the order of
the chain, and no exception comes out of a continuation. -/
structure Repeats (n i : ℕ) (es : List ChainEvent) : Prop where
  runs : Mixes (List.range (i + 1) ::
      List.replicate (es.filterMap ChainEvent.called).length (List.range' (i + 1) (n - i)))
    (es.filterMap ChainEvent.position)
  calm : .throws ∉ es

theorem seen_asksAtMost {Q A : Type} (reply : Reply) :
    AsksAtMost 0 (seen reply : Prog (Objects σ) ChainEvent Q A Reply) := by
  unfold seen
  cases reply.result with
  | ok _ => trivial
  | error _ => trivial

theorem seenAt_callsOnce {y : UnaryServerInterceptor σ Empty Msg Ctx} (hy : CallsOnce y) (j : ℕ) :
    CallsOnce (seenAt j y) := fun args =>
  (hy args).lift.plug (n := 1) (m := 1) fun _ _ => seen_asksAtMost

/-! ## The work of a run -/

/-- The rounds of a chain of `n` interceptors, which the one at position `i` opens. -/
def roundsOf (n i : ℕ) : Workload ChainEvent ℕ where
  shows := ChainEvent.position
  opens e := e.called.map fun full => List.range' (i + 1) (if full then n - i else n - i - 1)

section owes

variable {n i : ℕ} {c : Combination (Objects σ) ChainEvent Msg Ctx} {full : Bool} {ws : List (Option ℕ)}
  {handler : UnaryHandler (Objects σ) ChainEvent Msg Ctx}

theorem seen_owes {Q A : Type} (reply : Reply) : Owes (roundsOf n i) Objects.Drifts []
    (seen reply : Prog (Objects σ) ChainEvent Q A Reply) := by
  unfold seen
  cases reply.result with
  | ok _ => exact .ret _
  | error _ => exact .aside rfl rfl (.ret _)

theorem seenAt_owes {y : UnaryServerInterceptor σ Empty Msg Ctx} (hy : CallsExactlyOnce y) (j : ℕ)
    (args : Args Msg Ctx) : Owes (roundsOf n i) Objects.Drifts [some j, none] (seenAt j y args) := by
  have hlift : Owes (roundsOf n i) Objects.Drifts [none] ((y args).lift Objects.user Objects.setUser) :=
    Owes.of_emits (n := 1) Objects.user_setUser Objects.drifts_setUser (hy.atLeastOnce args)
  have hask : ∀ args : Args Msg Ctx, Owes (roundsOf n i) Objects.Drifts [none]
      (.ask args seen : Prog (Objects σ) ChainEvent (Args Msg Ctx) Reply Reply) :=
    fun args => .ask args seen_owes
  exact .shown rfl rfl (Owes.plug (u := []) hask hlift)

/-- Interceptors that call their continuation once run one after the other, and then what is below them
does. -/
theorem seenFrom_owes {ys : List (UnaryServerInterceptor σ Empty Msg Ctx)}
    (hys : ∀ y ∈ ys, CallsExactlyOnce y)
    (hc : ∀ args, Owes (roundsOf n i) Objects.Drifts ws ((c.run full args).plug (fun _ => handler) id ()))
    (j : ℕ) (args : Args Msg Ctx) :
    Owes (roundsOf n i) Objects.Drifts ((List.range' j ys.length).map some ++ ws)
      ((((seenFrom j ys).foldr Combination.wrapper c).run full args).plug (fun _ => handler) id ()) := by
  induction ys generalizing j args with
  | nil => exact hc args
  | cons y ys ih =>
      obtain ⟨hy, hys⟩ := List.forall_mem_cons.mp hys
      rw [seenFrom, List.foldr_cons, wrapper_run (seenAt_callsOnce hy.atMostOnce j), plug_plug]
      exact Owes.plug (u := [j]) (ih hys (j + 1)) (seenAt_owes hy j args)

theorem seenHandler_owes {handler : UnaryHandler σ Empty Msg Ctx} (hhandler : Completes handler) (j : ℕ)
    (args : Args Msg Ctx) : Owes (roundsOf n i) Objects.Drifts [some j] (seenHandler j handler args) :=
  .shown rfl rfl (Owes.of_emits (n := 0) Objects.user_setUser Objects.drifts_setUser (hhandler.ends args))

/-- The combination at the end calls the handler if there is one to call. -/
theorem direct_owes {j : ℕ} (hhandler : ∀ args, Owes (roundsOf n i) Objects.Drifts [some j] (handler args))
    (full : Bool) (args : Args Msg Ctx) :
    Owes (roundsOf n i) Objects.Drifts ((if full then [j] else []).map some)
      ((Combination.direct.run full args).plug (fun _ => handler) id ()) := by
  cases full with
  | false => exact .ret _
  | true => exact (hhandler args).bind fun r => .ret r

/-- A call opens a round, a copy does not. -/
theorem respond_owes (hc : ∀ full args, Owes (roundsOf n i) Objects.Drifts
      ((List.range' (i + 1) (if full then n - i else n - i - 1)).map some)
      ((c.run full args).plug (fun _ => handler) id ())) (u : ContinuationUse Msg Ctx) :
    Owes (roundsOf n i) Objects.Drifts [] ((c.respond u).plug (fun _ => handler) id ()) := by
  cases u with
  | call object args =>
      refine .act (fun s => ⟨s, rfl, rfl⟩) fun s _ => ?_
      show Owes _ _ [] (((s.owns[object]?).elim Prog.halt _).plug (fun _ => handler) id ())
      cases s.owns[object]? with
      | none => exact .halt
      | some full =>
          -- the call opens a round of its own, and whatever follows the object owes that round
          refine .opened rfl rfl ?_
          rw [plug_bind, plug_bind]
          refine ((hc full args).bind fun reply => ?_).bind fun reply => .ret _
          exact Owes.plug_some (u := []) (seen_owes reply)
  | copy object =>
      refine .act (fun s => ⟨s, rfl, rfl⟩) fun s _ => ?_
      show Owes _ _ [] (((s.owns[object]?).elim Prog.halt _).plug (fun _ => handler) id ())
      cases s.owns[object]? with
      | none => exact .halt
      | some _ => exact .ret _

theorem retrying_owes {x : RetryingInterceptor σ Msg Ctx} (hx : CallsAtWill x)
    (hc : ∀ full args, Owes (roundsOf n i) Objects.Drifts
      ((List.range' (i + 1) (if full then n - i else n - i - 1)).map some)
      ((c.run full args).plug (fun _ => handler) id ())) (args : Args Msg Ctx) :
    Owes (roundsOf n i) Objects.Drifts [some i]
      (((Combination.retrying i x c).run full args).plug (fun _ => handler) id ()) := by
  refine .act (fun s => ⟨s, rfl, rfl⟩) fun s _ => .shown rfl rfl ?_
  rw [plug_plug]
  exact Wakes.owes Objects.user_setUser Objects.drifts_setUser (respond_owes hc) (hx.wakes _ args)

variable {front rest : List (UnaryServerInterceptor σ Empty Msg Ctx)} {x : RetryingInterceptor σ Msg Ctx}
  {handler : UnaryHandler σ Empty Msg Ctx}

/-- Below the interceptor that calls, the others run, and the handler if the object owns `next`. -/
theorem below_owes (hrest : ∀ y ∈ rest, CallsExactlyOnce y) (hhandler : Completes handler) (full : Bool)
    (args : Args Msg Ctx) : Owes (roundsOf (i + 1 + rest.length) i) Objects.Drifts
      ((List.range' (i + 1)
        (if full then i + 1 + rest.length - i else i + 1 + rest.length - i - 1)).map some)
      ((((seenFrom (i + 1) rest).foldr Combination.wrapper .direct).run full args).plug
        (fun _ => seenHandler (i + 1 + rest.length) handler) id ()) := by
  have hchain := seenFrom_owes hrest
    (fun args => direct_owes (n := i + 1 + rest.length) (i := i)
      (seenHandler_owes hhandler (i + 1 + rest.length)) full args) (i + 1) args
  have hlen : i + 1 + rest.length - i = rest.length + 1 := by omega
  rw [hlen, Nat.add_sub_cancel]
  cases full with
  | false => simpa using hchain
  | true => simpa [List.range'_concat] using hchain

/-- The interceptors down to the one that calls run first of all. -/
theorem retryChain_owes (hfront : ∀ y ∈ front, CallsExactlyOnce y) (hx : CallsAtWill x)
    (hrest : ∀ y ∈ rest, CallsExactlyOnce y) (hhandler : Completes handler) (args : Args Msg Ctx) :
    Owes (roundsOf (front.length + 1 + rest.length) front.length) Objects.Drifts
      ((List.range (front.length + 1)).map some) (retryChain front x rest handler args) := by
  have hretrying : ∀ args, Owes (roundsOf (front.length + 1 + rest.length) front.length) Objects.Drifts
      [some front.length] (((Combination.retrying front.length x
        ((seenFrom (front.length + 1) rest).foldr Combination.wrapper .direct)).run true args).plug
        (fun _ => seenHandler (front.length + 1 + rest.length) handler) id ()) :=
    retrying_owes hx (below_owes hrest hhandler)
  have hchain := seenFrom_owes hfront hretrying 0 args
  rwa [← List.range_eq_range', ← List.map_singleton, ← List.map_append, ← List.range_succ] at hchain

end owes

/-! ## Exceptions -/

section upholds

variable {c : Combination (Objects σ) ChainEvent Msg Ctx}

/-- Nothing throws as long as only objects that own a `next` are called. -/
abbrev NoThrow {Q A R : Type} (good : A → Prop) (fine : R → Prop) :
    Prog (Objects σ) ChainEvent Q A R → Prop :=
  Upholds good (· = .calls false) (· = .throws) fine

theorem seen_upholds {Q A : Type} {good : A → Prop} {reply : Reply} (hreply : ¬ reply.Threw) :
    NoThrow good (fun reply => ¬ reply.Threw) (seen reply : Prog (Objects σ) ChainEvent Q A Reply) := by
  unfold seen
  cases hresult : reply.result with
  | ok _ => exact hreply
  | error e => exact absurd ⟨e, hresult⟩ hreply

theorem seenFrom_upholds {ys : List (UnaryServerInterceptor σ Empty Msg Ctx)}
    (hys : ∀ y ∈ ys, CallsExactlyOnce y)
    (hc : ∀ args, NoThrow (fun reply => ¬ reply.Threw) (fun reply => ¬ reply.Threw) (c.run true args))
    (j : ℕ) (args : Args Msg Ctx) :
    NoThrow (fun reply => ¬ reply.Threw) (fun reply => ¬ reply.Threw)
      (((seenFrom j ys).foldr Combination.wrapper c).run true args) := by
  induction ys generalizing j args with
  | nil => exact hc args
  | cons y ys ih =>
      obtain ⟨hy, hys⟩ := List.forall_mem_cons.mp hys
      rw [seenFrom, List.foldr_cons, wrapper_run (seenAt_callsOnce hy.atMostOnce j)]
      have hseen : NoThrow (fun reply => ¬ reply.Threw) (fun reply => ¬ reply.Threw) (seenAt j y args) := by
        refine .inr ⟨by simp, Upholds.plug (hy.calm args).lift fun args => ?_⟩
        exact fun reply hreply => seen_upholds hreply
      exact hseen.plug (ih hys (j + 1))

theorem respond_upholds
    (hc : ∀ args, NoThrow (fun reply => ¬ reply.Threw) (fun reply => ¬ reply.Threw) (c.run true args))
    (u : ContinuationUse Msg Ctx) :
    NoThrow (fun reply => ¬ reply.Threw) (fun answer => ¬ answer.Threw) (c.respond u) := by
  cases u with
  | call object args =>
      intro s _
      show NoThrow _ _ ((s.owns[object]?).elim Prog.halt _)
      cases s.owns[object]? with
      | none => trivial
      | some full =>
          cases full with
          -- an object whose `next` has been moved out breaks the promise at once
          | false => exact .inl rfl
          | true =>
              refine .inr ⟨by simp, ((hc args).bind fun reply hreply => ?_).bind fun reply hreply => hreply⟩
              exact seen_upholds hreply
  | copy object =>
      intro s _
      show NoThrow _ _ ((s.owns[object]?).elim Prog.halt _)
      cases s.owns[object]? with
      | none => trivial
      | some _ => exact id

variable {front rest : List (UnaryServerInterceptor σ Empty Msg Ctx)} {x : RetryingInterceptor σ Msg Ctx}
  {handler : UnaryHandler σ Empty Msg Ctx}

theorem retryChain_upholds (hfront : ∀ y ∈ front, CallsExactlyOnce y) (hx : CallsAtWill x)
    (hrest : ∀ y ∈ rest, CallsExactlyOnce y) (hhandler : Completes handler) (args : Args Msg Ctx) :
    NoThrow (fun _ => True) (fun reply => ¬ reply.Threw) (retryChain front x rest handler args) := by
  have hdirect : ∀ args : Args Msg Ctx, NoThrow (fun reply => ¬ reply.Threw) (fun reply => ¬ reply.Threw)
      ((Combination.direct : Combination (Objects σ) ChainEvent Msg Ctx).run true args) :=
    fun _ _ hreply => hreply
  have hbelow := seenFrom_upholds hrest hdirect (front.length + 1)
  have hretrying : ∀ args, NoThrow (fun reply => ¬ reply.Threw) (fun reply => ¬ reply.Threw)
      ((Combination.retrying front.length x
        ((seenFrom (front.length + 1) rest).foldr Combination.wrapper .direct)).run true args) := by
    refine fun args s _ => .inr ⟨by simp, ?_⟩
    exact Upholds.plug (hx.calm _ args).lift (respond_upholds hbelow)
  have hchain := seenFrom_upholds hfront hretrying 0 args
  refine hchain.plug fun args => .inr ⟨by simp, (hhandler.calm args).lift⟩

end upholds

/-! ## The last interceptor -/

section last

variable {front : List (UnaryServerInterceptor σ Empty Msg Ctx)} {x : RetryingInterceptor σ Msg Ctx}
  {handler : UnaryHandler σ Empty Msg Ctx}

/-- All objects own a `next`, and none is called that does not. -/
abbrev KeepsOwning {Q A R : Type} : Prog (Objects σ) ChainEvent Q A R → Prop :=
  Keeps (fun s => ∀ full ∈ s.owns, full = true) (· ≠ .calls false)

theorem lift_keeps {Q A R : Type} (p : Prog σ Empty Q A R) :
    KeepsOwning (p.lift Objects.user Objects.setUser : Prog (Objects σ) ChainEvent Q A R) := by
  have hset : ∀ (s : Objects σ) (user : σ), (∀ full ∈ s.owns, full = true) →
      ∀ full ∈ (s.setUser user).owns, full = true := fun _ _ hs => hs
  exact Guarantees.lift hset p

theorem seen_keeps {Q A : Type} (reply : Reply) :
    KeepsOwning (seen reply : Prog (Objects σ) ChainEvent Q A Reply) := by
  unfold seen
  cases reply.result with
  | ok _ => trivial
  | error _ => exact ⟨by simp, trivial⟩

theorem seenFrom_keeps {ys : List (UnaryServerInterceptor σ Empty Msg Ctx)}
    (hys : ∀ y ∈ ys, CallsExactlyOnce y) {c : Combination (Objects σ) ChainEvent Msg Ctx}
    (hc : ∀ args, KeepsOwning (c.run true args)) (j : ℕ) (args : Args Msg Ctx) :
    KeepsOwning (((seenFrom j ys).foldr Combination.wrapper c).run true args) := by
  induction ys generalizing j args with
  | nil => exact hc args
  | cons y ys ih =>
      obtain ⟨hy, hys⟩ := List.forall_mem_cons.mp hys
      rw [seenFrom, List.foldr_cons, wrapper_run (seenAt_callsOnce hy.atMostOnce j)]
      have hseen : KeepsOwning (seenAt j y args) := by
        refine ⟨by simp, (lift_keeps _).plug (fun _ args => ?_) ()⟩
        exact fun reply => seen_keeps reply
      exact hseen.plug (fun _ => ih hys (j + 1)) ()

/-- If nothing but the handler is below, no object ever loses its `next`. -/
theorem direct_respond_keeps (u : ContinuationUse Msg Ctx) :
    KeepsOwning ((Combination.direct : Combination (Objects σ) ChainEvent Msg Ctx).respond u) := by
  cases u with
  | call object args =>
      intro s hs s' hs'
      obtain rfl := Option.some.inj hs'
      refine ⟨hs, ?_⟩
      show KeepsOwning ((s.owns[object]?).elim Prog.halt _)
      cases hobject : s.owns[object]? with
      | none => trivial
      | some full =>
          -- every object still owns its `next`, so the call is one that goes on
          obtain rfl := hs full (List.mem_of_getElem? hobject)
          exact ⟨by simp, fun reply => (seen_keeps reply).bind fun reply => trivial⟩
  | copy object =>
      intro s hs s' hs'
      obtain rfl := Option.some.inj hs'
      show (∀ full ∈ ((s.owns[object]?).elim s s.add).owns, full = true) ∧
        KeepsOwning ((s.owns[object]?).elim Prog.halt _)
      cases hobject : s.owns[object]? with
      | none => exact ⟨hs, trivial⟩
      | some full =>
          refine ⟨List.forall_mem_append.mpr ⟨hs, ?_⟩, trivial⟩
          -- a copy owns what its original owns
          simpa using hs full (List.mem_of_getElem? hobject)

theorem last_keeps (hfront : ∀ y ∈ front, CallsExactlyOnce y) (args : Args Msg Ctx) :
    KeepsOwning (retryChain front x [] handler args) := by
  have hretrying : ∀ args, KeepsOwning ((Combination.retrying front.length x .direct).run true args) := by
    intro args s hs s' hs'
    obtain rfl := Option.some.inj hs'
    refine ⟨List.forall_mem_append.mpr ⟨hs, by simp⟩, by simp, ?_⟩
    exact (lift_keeps _).plug (fun _ => direct_respond_keeps) ()
  have hchain := seenFrom_keeps hfront hretrying 0 args
  have hhandler : ∀ args, KeepsOwning (seenHandler (front.length + 1 + 0) handler args) :=
    fun args => ⟨by simp, lift_keeps _⟩
  exact hchain.plug (fun _ => hhandler) ()

end last

/-! ## When it may be called again -/

section retries

variable {n i : ℕ} {es : List ChainEvent}

/-- The rounds that the calls of a run open. -/
theorem filterMap_opens : es.filterMap (roundsOf n i).opens =
    (es.filterMap ChainEvent.called).map fun full =>
      List.range' (i + 1) (if full then n - i else n - i - 1) := by
  rw [List.map_filterMap]
  rfl

theorem calls_false_mem_iff : .calls false ∈ es ↔ false ∈ es.filterMap ChainEvent.called := by
  rw [List.mem_filterMap]
  constructor
  · intro h
    exact ⟨_, h, rfl⟩
  · rintro ⟨e, he, hcalled⟩
    cases e with
    | calls full =>
        obtain rfl := Option.some.inj hcalled
        exact he
    | runs _ => cases hcalled
    | throws => cases hcalled

/-- Calls of objects that own a `next` all open the same round. -/
theorem map_rounds_eq {calls : List Bool} (h : false ∉ calls) :
    (calls.map fun full => List.range' (i + 1) (if full then n - i else n - i - 1)) =
      List.replicate calls.length (List.range' (i + 1) (n - i)) := by
  rw [List.map_eq_replicate_iff]
  intro full hfull
  cases full with
  | false => exact absurd hfull h
  | true => rfl

/-- Each call of any other object lacks the handler. -/
theorem length_rounds (hi : i < n) (calls : List Bool) :
    (calls.map fun full => List.range' (i + 1) (if full then n - i else n - i - 1)).flatten.length +
      calls.count false = calls.length * (n - i) := by
  obtain ⟨d, hd⟩ : ∃ d, n - i = d + 1 := ⟨n - i - 1, by omega⟩
  rw [hd, Nat.add_sub_cancel]
  induction calls with
  | nil => simp
  | cons full calls ih =>
      rw [List.map_cons, List.flatten_cons, List.length_append, List.length_range', List.length_cons,
        Nat.succ_mul, ← ih]
      cases full with
      | false =>
          rw [List.count_cons_self, if_neg Bool.false_ne_true]
          omega
      | true =>
          rw [List.count_cons_of_ne (by simp), if_pos rfl]
          omega

/-- So the calls of a run do what they should just when each object that is called owns a `next`. -/
theorem mixes_iff (hi : i < n) {rest : List (List ℕ)} {calls : List Bool} {ps : List ℕ}
    (h : Mixes (rest ++ calls.map fun full => List.range' (i + 1) (if full then n - i else n - i - 1)) ps) :
    Mixes (rest ++ List.replicate calls.length (List.range' (i + 1) (n - i))) ps ↔ false ∉ calls := by
  constructor
  · intro hall hfalse
    have hlength := length_rounds hi calls
    have hcount := List.count_pos_iff.mpr hfalse
    have heq := h.length_eq.symm.trans hall.length_eq
    rw [List.flatten_append, List.flatten_append, List.length_append, List.length_append,
      List.length_flatten (L := List.replicate _ _), List.map_replicate, List.length_range',
      List.sum_replicate_nat] at heq
    omega
  · intro hfalse
    rwa [map_rounds_eq hfalse] at h

end retries

variable {front rest : List (UnaryServerInterceptor σ Empty Msg Ctx)} {x : RetryingInterceptor σ Msg Ctx}
  {handler : UnaryHandler σ Empty Msg Ctx} {args : Args Msg Ctx} {s : σ} {es : List ChainEvent}
  {b : Pool (Objects σ) ChainEvent Empty Reply}

/-- The last interceptor of a chain only ever calls objects that own a `next`. -/
theorem last_calls_owning (hfront : ∀ y ∈ front, CallsExactlyOnce y)
    (hrun : Run (World.drifting Objects.Drifts) ⟨⟨s, []⟩, [retryChain front x [] handler args]⟩ es b) :
    .calls false ∉ es := by
  have hW : World.Preserves (World.drifting Objects.Drifts : World (Objects σ) ChainEvent Empty Reply)
      (fun s => ∀ full ∈ s.owns, full = true) (· ≠ .calls false) := by
    refine ⟨fun s s' hs howns => ?_, fun p hp => hp.elim⟩
    rwa [show s'.owns = s.owns from hs]
  have hstart : Pool.Guaranteed (fun s : Objects σ => ∀ full ∈ s.owns, full = true) (· ≠ .calls false)
      ⟨⟨s, []⟩, [retryChain front x [] handler args]⟩ :=
    ⟨by simp, List.forall_mem_singleton.mpr (last_keeps hfront args)⟩
  intro hmem
  exact (hrun.guaranteed hW hstart).2 _ hmem rfl

def returnAnswer : ContinuationAnswer →
    Prog Unit Empty (ContinuationUse Unit Unit) ContinuationAnswer Reply
  | .replied reply => .ret reply
  | .copied _ => .halt

def tryTwice : RetryingInterceptor Unit Unit Unit := fun object args =>
  .ask (.call object args) fun _ => .ask (.call object args) returnAnswer

/-- An interceptor that makes a copy before it tries, for the second time. -/
def tryCopy : RetryingInterceptor Unit Unit Unit := fun object args =>
  .ask (.copy object) fun
    | .copied copy => .ask (.call object args) fun _ => .ask (.call copy args) returnAnswer
    | .replied _ => .halt

def passOn : UnaryServerInterceptor Unit Empty Unit Unit := fun args => .ask args .ret

theorem returnAnswer_wakes (answer : ContinuationAnswer) : (returnAnswer answer).Wakes := by
  cases answer with
  | replied _ => trivial
  | copied _ => trivial

theorem returnAnswer_calm {answer : ContinuationAnswer} (h : ¬ answer.Threw) :
    Calm (fun answer => ¬ answer.Threw) (returnAnswer answer) := by
  cases answer with
  | replied _ => exact h
  | copied _ => trivial

theorem tryTwice_callsAtWill : CallsAtWill tryTwice where
  wakes _ _ _ := returnAnswer_wakes
  calm _ _ _ _ _ := returnAnswer_calm

theorem tryCopy_callsAtWill : CallsAtWill tryCopy where
  wakes object args answer := by
    cases answer with
    | replied _ => trivial
    | copied _ => exact fun _ => returnAnswer_wakes
  calm object args answer _ := by
    cases answer with
    | replied _ => trivial
    | copied _ => exact fun _ _ _ => returnAnswer_calm

theorem passOn_callsExactlyOnce : CallsExactlyOnce passOn where
  atMostOnce _ _ := trivial
  atLeastOnce args := .ask args .ret
  calm _ _ hreply := hreply

theorem emptyHandler_completes : Completes (emptyHandler : UnaryHandler Unit Empty Unit Unit) where
  ends _ := .ret _
  calm _ := by simp [emptyHandler, Calm, Upholds, Reply.Threw]

/-- The copy is above another interceptor, and both calls reach the handler. -/
theorem tryCopy_run : ∃ b, Run (World.drifting Objects.Drifts)
    ⟨⟨(), []⟩, [retryChain [] tryCopy [passOn] emptyHandler ⟨{}, (), ()⟩]⟩
    [.runs 0, .calls true, .runs 1, .runs 2, .calls true, .runs 1, .runs 2] b ∧
    ∀ p ∈ b.threads, p.Done := by
  have h1 : Run (World.drifting Objects.Drifts)
      ⟨⟨(), []⟩, [retryChain [] tryCopy [passOn] emptyHandler ⟨{}, (), ()⟩]⟩ [] ⟨_, [_]⟩ :=
    .single (.act [] [] rfl trivial)
  have h2 := h1.tail (.emit [] [] _ trivial)
  have h3 := h2.tail (.act [] [] rfl trivial)
  have h4 := h3.tail (.act [] [] rfl trivial)
  have h5 := h4.tail (.emit [] [] _ trivial)
  have h6 := h5.tail (.emit [] [] _ trivial)
  have h7 := h6.tail (.emit [] [] _ trivial)
  have h8 := h7.tail (.act [] [] rfl trivial)
  have h9 := h8.tail (.emit [] [] _ trivial)
  have h10 := h9.tail (.emit [] [] _ trivial)
  have h11 := h10.tail (.emit [] [] _ trivial)
  exact ⟨_, h11, List.forall_mem_singleton.mpr trivial⟩

end GayRpc
